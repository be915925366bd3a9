import Mathlib.Data.Finset.SDiff
import Mathlib.Order.Interval.Finset.Nat
import Regexp.Proofs.Simulation
import Regexp.Proofs.WhitePath

/-!
# The plain search

Backtracking without a memory: the branches are tried in order, and only a
closure that is entered again at the same offset *on the same path* is refused,
since a loop over the empty text would not end otherwise.  This is what
backtracking is usually taken to be, and it takes exponentially many steps.  The
machine remembers every entry of the whole attempt.  This module shows that on
plain patterns the memory changes nothing: not whether there is a match, not
where it ends, and not what the groups have captured.

## Why the same match is found

An attempt refuses more entries than the plain search, namely those whose
exploration was given up.  All of these are ruled out by `Explores.white_path`.
So the plain search fails at them as well, only later.  The statement to prove
by induction is therefore about marks that fall into two kinds: those of the
current path, which both refuse, and the others, which lead to no match
(`Attempt.DeadOutside`).  That invariant is kept when a branch has failed
(`Attempt.DeadOutside.after_failed`), because what it has marked has been ruled
out too; and with it an exploration and the search give the same result at each
operation, `Attempt.plainSearch_eq_of_explores`.

The plain search is defined by recursion over the entries that are left outside
of the path and then over the index of the operation (`Attempt.pathRoom`,
`Attempt.linkRank`).  It needs no fuel either.

## Main definitions

* `Attempt.plainSearch` — the search.

## Main statements

* `Attempt.reaches_of_plainSearch`, `Attempt.plainSearch_eq_none` — the search
  finds the end of a path, if there is a path.
* `Attempt.run_eq_plainSearch` — on plain patterns an attempt has the answer and
  the slots of the plain search.
-/

namespace Regexp

/-- What the plain search has found if an exploration has found this. -/
def Discovery.found? : Discovery → Option (ℕ × Option Slots)
  | matched stop slots => some (stop, slots)
  | _ => none

namespace Attempt

variable (a : Attempt)

/-- The number of entries into closures that are left outside of a path.  It
goes down with each closure that the search enters, and is given back when the
search returns. -/
def pathRoom (path : Marks) : ℕ :=
  ((Finset.range a.program.closureLen ×ˢ Finset.Icc a.span.start a.span.stop) \ path).card

theorem pathRoom_insert_lt {path : Marks} {id i : ℕ} (hid : id < a.program.closureLen)
    (hi : a.InSpan i) (hnew : (id, i) ∉ path) :
    a.pathRoom (insert (id, i) path) < a.pathRoom path := by
  refine Finset.card_lt_card (Finset.ssubset_iff_of_subset ?_ |>.mpr ⟨(id, i), ?_, ?_⟩)
  · exact Finset.sdiff_subset_sdiff subset_rfl (Finset.subset_insert _ _)
  · obtain ⟨hstart, hstop⟩ := hi
    simp [hid, hstart, hstop, hnew]
  · simp

/-- The place of a link in the order in which links go down, with the end of the
program at the bottom. -/
def linkRank : Link → ℕ
  | none => 0
  | some k => k + 1

theorem linkRank_lt {link : Link} {k : ℕ} (h : link.Below k) :
    linkRank link < linkRank (some k) := by
  cases link with
  | none => exact Nat.succ_pos k
  | some j => exact Nat.succ_lt_succ (h j rfl)

/-- The end and the slots of the first match that is found from a link and an
offset, when the closures of `path` have been entered on the way there.  What
other branches have entered is not remembered, so that this is the search which
tries everything again; it ends because a path does not enter a closure twice at
one offset. -/
def plainSearch (opts : Options) (path : Marks) (link : Link) (i : {i // a.InSpan i})
    (slots : Option Slots) : Option (ℕ × Option Slots) :=
  match link with
  | none => if a.whole = true ∧ i.1 ≠ a.span.stop then none else some (i, slots)
  | some k =>
    match _hop : a.program.ops[k]? with
    | some (.atom atom next) =>
      match hread : a.read atom opts false i slots with
      | .ok (some j) => plainSearch opts path next ⟨j, read_inSpan i.2 hread⟩ slots
      | _ => none
    | some (.union links) => links.attach.findSome? fun l => plainSearch opts path l.1 i slots
    | some (.question child greedy next) =>
      (Op.question child greedy next).branches.attach.findSome? fun l =>
        plainSearch opts path l.1 i slots
    | some (.closure id child greedy next) =>
      if _hnew : (id, i.1) ∈ path then none
      else
        (Op.closure id child greedy next).branches.attach.findSome? fun l =>
          plainSearch opts (insert (id, i.1) path) l.1 i slots
    | some (.mark group edge next) =>
      plainSearch opts path next i (recordIn slots (edge.slot group) i)
    | _ => none
  termination_by (a.pathRoom path, linkRank link)
  decreasing_by
    · exact .right _ (linkRank_lt (a.program.linked k _ _hop))
    · exact .right _ (linkRank_lt (a.program.linked k _ _hop l.1 l.2))
    · refine .right _ (linkRank_lt ?_)
      obtain ⟨hchild, hnext⟩ := a.program.linked k _ _hop
      have := l.2
      cases greedy <;> simp [Op.branches] at this <;> aesop
    · exact .left _ _ (a.pathRoom_insert_lt (a.program.linked k _ _hop).1 i.2 _hnew)
    · exact .right _ (linkRank_lt (a.program.linked k _ _hop))

variable {a} {opts : Options} {path : Marks} {link : Link} {i : {i // a.InSpan i}}
  {slots : Option Slots} {k e : ℕ} {op : Op} {O : Endings}

/-! ### The search at an operation -/

theorem plainSearch_read {atom : Atom} {next : Link} {j : ℕ}
    (hop : a.program.ops[k]? = some (.atom atom next))
    (hread : a.read atom opts false i slots = .ok (some j)) :
    a.plainSearch opts path (some k) i slots =
      a.plainSearch opts path next ⟨j, read_inSpan i.2 hread⟩ slots := by
  rw [plainSearch]
  split
  next hop' =>
    cases hop.symm.trans hop'
    split
    next hread' =>
      cases hread.symm.trans hread'
      rfl
    next hno => exact absurd hread (hno j)
  all_goals simp_all

theorem plainSearch_unread {atom : Atom} {next : Link}
    (hop : a.program.ops[k]? = some (.atom atom next))
    (hread : a.read atom opts false i slots = .ok none) :
    a.plainSearch opts path (some k) i slots = none := by
  rw [plainSearch]
  split
  next hop' =>
    cases hop.symm.trans hop'
    split
    next hread' => cases hread.symm.trans hread'
    next => rfl
  all_goals simp_all

theorem findSome?_attach (links : List Link) (f : Link → Option (ℕ × Option Slots)) :
    (links.attach.findSome? fun l => f l.1) = links.findSome? f := by
  rw [List.findSome?_subtype (g := f) fun _ _ => rfl, List.unattach_attach]

theorem plainSearch_choice (hop : a.program.ops[k]? = some op) (hc : op.isChoice = true) :
    a.plainSearch opts path (some k) i slots =
      op.branches.findSome? fun l => a.plainSearch opts path l i slots := by
  rw [plainSearch]
  split
  next hop' =>
    cases hop.symm.trans hop'
    simp [Op.isChoice] at hc
  next hop' =>
    cases hop.symm.trans hop'
    exact findSome?_attach _ fun l => a.plainSearch opts path l i slots
  next hop' =>
    cases hop.symm.trans hop'
    exact findSome?_attach _ fun l => a.plainSearch opts path l i slots
  all_goals cases op <;> simp_all [Op.isChoice]

theorem plainSearch_reenter {id child : ℕ} {greedy : Bool} {next : Link}
    (hop : a.program.ops[k]? = some (.closure id child greedy next)) (h : (id, i.1) ∈ path) :
    a.plainSearch opts path (some k) i slots = none := by
  rw [plainSearch]
  split
  case h_4 hop' =>
    cases hop.symm.trans hop'
    rw [dif_pos h]
  all_goals simp_all

theorem plainSearch_enter {id child : ℕ} {greedy : Bool} {next : Link}
    (hop : a.program.ops[k]? = some (.closure id child greedy next)) (h : (id, i.1) ∉ path) :
    a.plainSearch opts path (some k) i slots =
      (Op.closure id child greedy next).branches.findSome? fun l =>
        a.plainSearch opts (insert (id, i.1) path) l i slots := by
  rw [plainSearch]
  split
  case h_4 hop' =>
    cases hop.symm.trans hop'
    rw [dif_neg h]
    exact findSome?_attach _ fun l => a.plainSearch opts (insert (id, i.1) path) l i slots
  case h_6 hno _ => exact (hno _ _ _ _ hop).elim
  all_goals simp_all

theorem plainSearch_mark {group : ℕ} {edge : Edge} {next : Link}
    (hop : a.program.ops[k]? = some (.mark group edge next)) :
    a.plainSearch opts path (some k) i slots =
      a.plainSearch opts path next i (recordIn slots (edge.slot group) i) := by
  rw [plainSearch]
  split
  case h_5 hop' =>
    cases hop.symm.trans hop'
    rfl
  all_goals simp_all

/-- What the search finds is the end of a path that avoids the marks of the path
before. -/
theorem reaches_of_plainSearch {slots' : Option Slots}
    (h : a.plainSearch opts path link i slots = some (e, slots')) :
    Accepts a true e ∧ ∃ n, Reaches a O ↑path ⟨false, opts⟩ n link i e := by
  induction path, link, i, slots using plainSearch.induct a opts with
  | case1 path i slots hshort =>
    rw [plainSearch, if_pos hshort] at h
    cases h
  | case2 path i slots hend =>
    rw [plainSearch, if_neg hend] at h
    cases h
    refine ⟨fun _ hwhole => ?_, 0, .done⟩
    by_contra hne
    exact hend ⟨hwhole, hne⟩
  | case3 path i slots k atom next hop j hread ih =>
    rw [plainSearch_read hop hread] at h
    obtain ⟨he, n, hr⟩ := ih h
    exact ⟨he, n + 1, .step (.read hop hread) hr⟩
  | case4 path i slots k atom next hop hread =>
    rw [plainSearch] at h
    split at h <;> simp_all
  | case5 path i slots k links hop ih =>
    rw [plainSearch_choice hop rfl] at h
    obtain ⟨l, hl, h⟩ := List.exists_of_findSome?_eq_some h
    obtain ⟨he, n, hr⟩ := ih ⟨l, hl⟩ h
    exact ⟨he, n + 1, .step (.choose hop rfl hl) hr⟩
  | case6 path i slots k child greedy next hop ih =>
    rw [plainSearch_choice hop rfl] at h
    obtain ⟨l, hl, h⟩ := List.exists_of_findSome?_eq_some h
    obtain ⟨he, n, hr⟩ := ih ⟨l, hl⟩ h
    exact ⟨he, n + 1, .step (.choose hop rfl hl) hr⟩
  | case7 path i slots k id child greedy next hop hmem =>
    rw [plainSearch_reenter hop hmem] at h
    cases h
  | case8 path i slots k id child greedy next hop hnew ih =>
    rw [plainSearch_enter hop hnew] at h
    obtain ⟨l, hl, h⟩ := List.exists_of_findSome?_eq_some h
    obtain ⟨he, n, hr⟩ := ih ⟨l, hl⟩ h
    exact ⟨he, n + 1, .step (.enter hop hnew hl)
      (hr.mono (Finset.coe_subset.mpr (Finset.subset_insert _ _)))⟩
  | case9 path i slots k group edge next hop ih =>
    rw [plainSearch_mark hop] at h
    obtain ⟨he, n, hr⟩ := ih h
    exact ⟨he, n + 1, .step (.mark hop) hr⟩
  | case10 path i slots k hatom hunion hquestion hclosure hmark =>
    rw [plainSearch] at h
    split at h
    case h_4 hop => exact (hclosure _ _ _ _ hop).elim
    all_goals simp_all

/-- The search finds nothing where no path leads to a match. -/
theorem plainSearch_eq_none (h : Dead a O ↑path true ⟨false, opts⟩ link i) :
    a.plainSearch opts path link i slots = none := by
  cases hs : a.plainSearch opts path link i slots with
  | none => rfl
  | some found =>
    obtain ⟨he, n, hr⟩ := reaches_of_plainSearch (O := O) hs
    exact absurd hr (h n _ he)

/-! ### The search and the exploration -/

theorem findSome?_singleton (f : Link → Option (ℕ × Option Slots)) (l : Link) :
    [l].findSome? f = f l := by
  rw [List.findSome?_cons]
  cases f l <;> rfl

section

variable {own : ℕ → ℕ} {o : ℕ} {watch : ℕ → Mode → ℕ → Marks → Prop} {top : Bool} {m : Mode}
  {V V' : Marks} {links : List Link} {r : Discovery}

/-- Whether the marks that are not on a path are ruled out with respect to it: a
path from their closures would not lead to a match if it avoids what has been
entered on the path. -/
def DeadOutside (a : Attempt) (opts : Options) (own : ℕ → ℕ) (o : ℕ) (path V : Marks) : Prop :=
  ∀ (k id child : ℕ) (greedy : Bool) (next : Link) (i : ℕ),
    a.program.ops[k]? = some (.closure id child greedy next) → own k = o → (id, i) ∈ V →
      (id, i) ∉ path → Dead a (Ends a true) ↑path true ⟨false, opts⟩ (some k) i

theorem DeadOutside.insert (h : DeadOutside a opts own o path V) (p : ℕ × ℕ) :
    DeadOutside a opts own o (insert p path) (insert p V) := by
  intro k id child greedy next i hop ho hV hpath n e he hr
  have hne : (id, i) ≠ p := fun heq => hpath (heq ▸ Finset.mem_insert_self _ _)
  refine h k id child greedy next i hop ho ?_ ?_ n e he
    (hr.mono (Finset.coe_subset.mpr (Finset.subset_insert _ _)))
  · exact (Finset.mem_insert.mp hV).resolve_left hne
  · exact fun hmem => hpath (Finset.mem_insert_of_mem hmem)

variable (hplain : ∀ (k : ℕ) (op : Op), a.program.ops[k]? = some op → op.feature? = none)
  (hown : a.program.Owned own) (hunique : a.program.ClosuresUnique)

include hplain in
/-- The atoms of a plain pattern can be read. -/
theorem read_ne_error {atom : Atom} {next : Link} {reverse : Bool} {i : ℕ} {e : MatchError}
    (hop : a.program.ops[k]? = some (.atom atom next)) :
    a.read atom opts reverse i slots ≠ .error e := by
  have := hplain k _ hop
  cases atom <;> simp_all [Op.feature?, read]

include hplain hown hunique

/-- After an exploration that has failed the new marks are ruled out as well. -/
theorem DeadOutside.after_failed {i : ℕ}
    (h : Explores a watch true ⟨false, opts⟩ V links i slots V' .failed)
    (hlinks : ∀ l ∈ links, LinkIn own o l) (hdead : DeadOutside a opts own o path V) :
    DeadOutside a opts own o path V' := by
  have hruled : RulesOut a (Ends a true) own o true ⟨false, opts⟩ V links i V' :=
    h.white_path hown (isSteady_of_plain hplain) hunique
      (fun k m i V _ => undisturbed_of_plain hplain k m i V) hlinks
  intro k id child greedy next i hop ho hV' hpath
  by_cases hV : (id, i) ∈ V
  · exact hdead k id child greedy next i hop ho hV hpath
  · exact (hruled.marks_dead k id child greedy next i hop ho hV' hV).weaken hown (linkIn_some ho)
      fun k id child greedy next i hop ho hV hpath =>
        hdead k id child greedy next i hop ho hV (fun h => hpath (Finset.mem_coe.mpr h))

/-- An exploration of a plain pattern finds what the plain search finds, if the
marks that are not on the path of the search are ruled out. -/
theorem plainSearch_eq_of_explores {i : ℕ} (h : Explores a watch top m V links i slots V' r)
    (htop : top = true) (hm : m = ⟨false, opts⟩) (hi : a.InSpan i)
    (hlinks : ∀ l ∈ links, LinkIn own o l) (hdead : DeadOutside a opts own o path V)
    (hpath : path ⊆ V) :
    (∀ e, r ≠ .refused e) ∧
      links.findSome? (fun l => a.plainSearch opts path l ⟨i, hi⟩ slots) = r.found? := by
  -- The path gets longer with every closure that is entered.  What was marked by branches that have
  -- failed is not on it; that these marks cost no match is what `hdead` says.
  induction h generalizing path with
  | @accept top m V i sl h =>
    subst htop hm
    refine ⟨by simp, ?_⟩
    rw [findSome?_singleton, plainSearch, if_neg]
    · rfl
    · rintro ⟨hwhole, hne⟩
      exact hne (h rfl hwhole)
  | short hw hne =>
    refine ⟨by simp, ?_⟩
    rw [findSome?_singleton, plainSearch, if_pos ⟨hw, hne⟩]
    rfl
  | read hop hread _ ih =>
    subst htop hm
    have := ih rfl rfl (read_inSpan hi hread) (linksIn_links hown hlinks hop) hdead hpath
    rw [findSome?_singleton] at this ⊢
    rwa [plainSearch_read (i := ⟨_, hi⟩) hop hread]
  | unread hop hread =>
    subst htop hm
    rw [findSome?_singleton, plainSearch_unread (i := ⟨_, hi⟩) hop hread]
    exact ⟨by simp, rfl⟩
  | unreadable hop hread => exact absurd hread (read_ne_error hplain hop)
  | choose hop hc _ ih =>
    have := ih htop hm hi (linksIn_branches hown hlinks hop) hdead hpath
    rwa [findSome?_singleton, plainSearch_choice hop hc]
  | @reenter _ _ _ k i _ id _ _ _ hop hV =>
    subst htop hm
    have hk := own_eq_of_links hlinks
    refine ⟨by simp, ?_⟩
    rw [findSome?_singleton]
    by_cases hmem : (id, i) ∈ path
    · exact plainSearch_reenter hop hmem
    · -- The entry was given up before, so the plain search fails there as well.
      exact plainSearch_eq_none (i := ⟨i, hi⟩) (hdead k id _ _ _ _ hop hk hV hmem)
  | @enter _ _ _ k _ _ _ _ id _ _ _ hop hV _ ih =>
    have := ih htop hm hi (linksIn_branches hown hlinks hop) (hdead.insert _)
      (Finset.insert_subset_insert _ hpath)
    rwa [findSome?_singleton, plainSearch_enter hop fun h => hV (hpath h)]
  | mark hop _ ih =>
    have := ih htop hm hi (linksIn_links hown hlinks hop) hdead hpath
    rw [findSome?_singleton] at this ⊢
    rwa [plainSearch_mark hop]
  | test hop | untestable hop => exact absurd (hplain _ _ hop) (by simp [Op.feature?])
  | fail hop =>
    refine ⟨by simp, ?_⟩
    rw [findSome?_singleton, plainSearch]
    split <;> simp_all [Discovery.found?]
  | resume hop hb | abandon hop hb | refuse hop hb =>
    rw [body?_of_plain hplain hop] at hb
    cases hb
  | nil => exact ⟨by simp, rfl⟩
  | @first _ _ _ l l' ls _ _ _ r _ hr ih =>
    obtain ⟨hrefused, hfound⟩ := ih htop hm hi (linksIn_head hlinks) hdead hpath
    refine ⟨hrefused, ?_⟩
    rw [findSome?_singleton] at hfound
    cases r with
    | matched =>
      rw [List.findSome?_cons, hfound]
      rfl
    | failed => exact absurd rfl hr
    | refused e => exact absurd rfl (hrefused e)
  | @later _ _ _ l l' ls _ _ _ _ _ hhead _ ih ih' =>
    subst htop hm
    have hl : ∀ l'' ∈ [l], LinkIn own o l'' := linksIn_head hlinks
    obtain ⟨-, hfound⟩ := ih rfl rfl hi hl hdead hpath
    have hrest := ih' rfl rfl hi (linksIn_tail hlinks)
      (hdead.after_failed hplain hown hunique hhead hl) (hpath.trans hhead.subset)
    rw [findSome?_singleton] at hfound
    rwa [List.findSome?_cons, hfound]

end

/-! ### Attempts on plain patterns -/

/-- **The visited sets do not change what is found.**  On a plain pattern an
attempt has the end and the slots that the plain search finds, and it has no
match only if no path leads to one. -/
theorem run_eq_plainSearch {p : Pattern} (hp : p.IsPlain) (t : Target) (span : Span) (whole : Bool)
    (cache : Cache) (opts : Options) (slots : Option Slots) (offset : ℕ)
    (ho : InSpan ⟨.ofPattern p, t, span, whole⟩ offset) :
    let a : Attempt := ⟨.ofPattern p, t, span, whole⟩
    let found := a.plainSearch opts ∅ a.program.start ⟨offset, ho⟩ (fresh slots)
    let result := a.run cache opts slots offset
    result.answer = .ok (found.map Prod.fst) ∧
      result.slots = (found.map Prod.snd).getD (fresh slots) ∧
      (result.answer = .ok none ↔
        Dead a (Ends a true) ∅ true ⟨false, opts⟩ a.program.start offset) := by
  intro a found result
  obtain ⟨own, hown, hstart⟩ := Program.exists_owned p
  have hplain : ∀ (k : ℕ) (op : Op), a.program.ops[k]? = some op → op.feature? = none :=
    Program.feature?_eq_none hp
  have hunique : a.program.ClosuresUnique := fun _ _ _ _ _ _ _ _ _ => Program.closure_unique p
  have hlinks := linksIn_singleton hstart
  obtain ⟨V', r, he, hr⟩ := explores_run cache opts slots ho
  have htells := he.white_path hown (isSteady_of_plain hplain) hunique
    (fun k m i V _ => undisturbed_of_plain hplain k m i V) hlinks
  obtain ⟨hrefused, hfound⟩ := plainSearch_eq_of_explores hplain hown hunique he rfl rfl
    ho hlinks (fun _ _ _ _ _ _ _ _ hV => absurd hV (Finset.notMem_empty _)) subset_rfl
  rw [findSome?_singleton] at hfound
  replace hfound : found = r.found? := hfound
  rw [hfound]
  cases r with
  | matched e sl =>
    obtain ⟨hanswer, hslots⟩ := hr
    obtain ⟨haccepts, n, l, hl, hpath⟩ := htells
    obtain rfl := List.mem_singleton.mp hl
    refine ⟨hanswer, hslots, fun h => ?_, fun h => ?_⟩
    · cases hanswer.symm.trans h
    · exact absurd (hpath.mono (Set.empty_subset _)) (h n e haccepts)
  | failed =>
    obtain ⟨hanswer, hslots⟩ := hr
    refine ⟨hanswer, hslots, fun _ => ?_, fun _ => hanswer⟩
    simpa using htells.links_dead _ List.mem_cons_self
  | refused e => exact absurd rfl (hrefused e)

/-- A loop in a loop, both over texts that may be empty. -/
theorem run_eq_plainSearch_nested :
    let p : Pattern := .concat
      [.repetition (.group (some 1) (.repetition (.char 'a') 0 none true)) 0 none true, .char 'b']
    let a : Attempt := ⟨.ofPattern p, .bufferOfString "aab", ⟨0, 3⟩, false⟩
    p.IsPlain ∧ ∃ ho : a.InSpan 0,
      (a.run .empty .empty none 0).answer =
        .ok ((a.plainSearch .empty ∅ a.program.start ⟨0, ho⟩ none).map Prod.fst) :=
  ⟨rfl, by decide, (run_eq_plainSearch (by exact rfl) _ _ _ _ _ _ _ _).1⟩

end Attempt

end Regexp
