import Mathlib.Data.List.Permutation
import Regexp.Proofs.Halting
import Regexp.Proofs.Standing
import Regexp.Proofs.Threading
import Regexp.Proofs.WhitePath

/-!
# What a closure hides

A closure is entered only once at an offset, also where captures make a
difference.  In a plain pattern the second entry would lead nowhere, because the
first one did not (`Explores.white_path`).  With references and conditions on
groups this argument fails: the machine may come to the closure again with other
captures, and from there a match may be in reach that was not in reach before.
Such a match is hidden.  This module shows that it is the only way to miss a
match in a program without matches within the match.

## Runs without a match

`Attempt.Fruitless` are runs that neither succeed nor are refused.  In such a
run the machine comes back to everything that it has left for later: it falls
back to each frame (`Attempt.Fruitless.falls_back`), and so it tries all
branches of each choice (`Attempt.Fruitless.branches`).  Hence it follows every
tread of a trail, except where it comes to a closure that it has entered before
at the same offset, `Attempt.Fruitless.follow`.  Take a trail to a match then,
and follow it as far as the run does.  Where the run turns away from it, there
was an entry before (`Attempt.exists_entry`); if that one had the same captures,
the rest of the trail could be taken from there instead, and the argument can be
repeated from an earlier state.  It comes to an end at an entry with other
captures.

## Which captures make a difference

Only those that somebody asks for.  Places that agree on the groups to which the
program refers have the same treads, and lead equally far (`Place.AgreesOn`,
`Leads.transfer`); so `Attempt.TurnsAway` says that the captures differ for a
group that is referred to, and an attempt can be told from its pattern alone to
hide nothing if there is no such group.

## Main definitions

* `Place.AgreesOn` — places that differ only in groups that nobody asks for.
* `Attempt.Fruitless` — runs that neither succeed nor are refused.
* `Attempt.TurnsAway`, `Attempt.Hides` — a closure turns a match away.

## Main statements

* `Leads.transfer` — places that agree lead equally far.
* `Attempt.exists_entry` — a closure that is marked was entered before.
* `Attempt.Fruitless.follow` — a run without a match follows every tread.
* `Attempt.Fruitless.hides` — a run that misses a match hides it.
* `Attempt.run_finds_or_hides` — an attempt finds a match that a derivation with
  captures leads to, or hides one.
-/

namespace Regexp

variable {a : Attempt} {m : Mode} {refs : ℕ → Prop} {s₀ s s' s₁ s₂ : State} {V : Marks} {n k : ℕ}
  {l : Link} {ls : List Link} {x x' y z : Place} {base fs : List Frame}

/-! ### Places that agree -/

/-- Whether two places have the same offset, and the same slots for some groups.
A program that refers to no others cannot tell the places apart
(`Program.RefersOnly`). -/
structure Place.AgreesOn (refs : ℕ → Prop) (x x' : Place) : Prop where
  offset : x'.offset = x.offset
  size : x'.slots.map Array.size = x.slots.map Array.size
  recorded : ∀ n, refs n → ∀ edge, x'.recorded n edge = x.recorded n edge

/-- Whether a program refers to no other groups, by a reference or by a
condition. -/
def Program.RefersOnly (p : Program) (refs : ℕ → Prop) : Prop :=
  ∀ (k : ℕ) (op : Op) (f : Feature) (g : ℕ), p.ops[k]? = some op → op.feature? = some f →
    f.group? = some g → refs g

namespace Place.AgreesOn

theorem capturedSpan_eq (h : x.AgreesOn refs x') (hn : refs n) :
    capturedSpan x'.slots n = capturedSpan x.slots n := by
  obtain ⟨i, sl⟩ := x
  obtain ⟨i', sl'⟩ := x'
  have hsize := h.size
  have hstart := h.recorded n hn .start
  have hstop := h.recorded n hn .stop
  simp only [Place.recorded, Edge.slot] at hsize hstart hstop
  cases sl with
  | none =>
    cases sl' with
    | none => rfl
    | some slots' => cases hsize
  | some slots =>
    cases sl' with
    | none => cases hsize
    | some slots' =>
      simp only [Option.map_some, Option.some_inj, Option.bind_some] at hsize hstart hstop
      simp only [capturedSpan, hsize, hstart, hstop]

theorem record (h : x.AgreesOn refs x') (slot : ℕ) :
    (x.record slot).AgreesOn refs (x'.record slot) where
  offset := h.offset
  size := (size_recordIn _ _ _).trans (h.size.trans (size_recordIn _ _ _).symm)
  recorded n hn edge := by
    obtain ⟨i, sl⟩ := x
    obtain ⟨i', sl'⟩ := x'
    obtain rfl : i' = i := h.offset
    have hsize := h.size
    have hrecorded := h.recorded n hn edge
    simp only [Place.recorded, Place.record, recordIn] at hsize hrecorded ⊢
    cases sl with
    | none =>
      cases sl' with
      | none => rfl
      | some slots' => cases hsize
    | some slots =>
      cases sl' with
      | none => cases hsize
      | some slots' =>
        simp only [Option.map_some, Option.some_inj, Option.bind_some] at hsize hrecorded ⊢
        simp only [Array.getElem?_setIfInBounds, hsize]
        split
        · rfl
        · exact hrecorded

end Place.AgreesOn

/-- Places that agree read the same.  Only a reference looks at slots, and it
looks at those of its group. -/
theorem Place.AgreesOn.read_eq (hrefs : a.program.RefersOnly refs) {atom : Atom} {next : Link}
    (hop : a.program.ops[k]? = some (.atom atom next)) (h : x.AgreesOn refs x') :
    a.read atom m.opts m.reverse x'.offset x'.slots =
      a.read atom m.opts m.reverse x.offset x.slots := by
  rw [h.offset]
  cases atom with
  | backref g => simp only [Attempt.read, h.capturedSpan_eq (hrefs k _ _ g hop rfl rfl)]
  | _ => rfl

/-- Places that agree have the same treads, to places that agree again. -/
theorem Tread.transfer (hflat : a.program.IsFlat) (hrefs : a.program.RefersOnly refs)
    (h : Tread a m k x l y) (hx : x.AgreesOn refs x') :
    ∃ y', Tread a m k x' l y' ∧ y.AgreesOn refs y' := by
  cases h with
  | read hop hread =>
    rw [← hx.read_eq hrefs hop] at hread
    exact ⟨_, .read hop hread, rfl, hx.size, hx.recorded⟩
  | branch hop hkind hl => exact ⟨x', .branch hop hkind hl, hx⟩
  | mark hop => exact ⟨_, .mark hop, hx.record _⟩
  | test hop hg =>
    rw [← hx.capturedSpan_eq (hrefs k _ _ _ hop rfl rfl)] at hg
    exact ⟨x', .test hop hg, hx⟩
  | ended hop hb | failed hop hb => cases (hflat k _ m hop).symm.trans hb

/-- Places that agree lead equally far, by as many treads and to the same link. -/
theorem Leads.transfer (hflat : a.program.IsFlat) (hrefs : a.program.RefersOnly refs)
    (h : Leads (Tread a m) n l x z) (hx : x.AgreesOn refs x') :
    ∃ z', Leads (Tread a m) n l x' z' := by
  induction h generalizing x' with
  | done => exact ⟨x', .done⟩
  | step tread _ ih =>
    obtain ⟨y', tread', hy⟩ := tread.transfer hflat hrefs hx
    obtain ⟨z', h⟩ := ih hy
    exact ⟨z', .step tread' h⟩

namespace Attempt

/-! ### Entries -/

/-- A closure that was entered by a run was entered in a state of the run, which
stood at the closure and at the same offset. -/
theorem exists_entry (hs₀ : s₀.Valid a) (hnew : a.Shows s₀ ∅) (hw : a.Within [] s₀ s) {id o : ℕ}
    (hid : id < a.program.closureLen) (ho : a.InSpan o)
    (h : s.hasEntered id (o - a.span.start) = true) :
    ∃ s₁ k child greedy next, a.Within [] s₀ s₁ ∧ a.Within [] s₁ s ∧ s₁.control = .run (some k) ∧
      a.program.ops[k]? = some (.closure id child greedy next) ∧ s₁.offset = o ∧
        a.entered? s₁ id = some false := by
  induction hw with
  | refl => exact absurd ((hnew id hid o ho).mp h) (Finset.notMem_empty _)
  | @tail s s' hw hstep ih =>
    by_cases hbefore : s.hasEntered id (o - a.span.start) = true
    · obtain ⟨s₁, k, child, greedy, next, hw₁, hw₂, hs₁⟩ := ih hbefore
      exact ⟨s₁, k, child, greedy, next, hw₁, hw₂.tail hstep, hs₁⟩
    · rcases visited_of_step hstep.1 with
        hvisited | ⟨k, id', child, greedy, next, hc, hop, hfree, rfl⟩
      · rw [State.hasEntered, hvisited] at h
        exact absurd h hbefore
      · have hs := Within.valid hw hs₀
        have hid' := (a.program.linked k _ hop).1
        have hoffset := hs.offset_mem
        have hsize := hs.visited_le
        have hmark : (a.markEntered s id').hasEntered id (o - a.span.start) = true := h
        rw [State.hasEntered_markEntered (by omega), Bool.or_eq_true] at hmark
        have hmark := hmark.resolve_left hbefore
        simp only [Bool.and_eq_true, decide_eq_true_iff] at hmark
        obtain ⟨rfl, heq⟩ := hmark
        unfold InSpan at ho hoffset
        exact ⟨s, k, child, greedy, next, hw, .single hstep.1 hstep.2, hc, hop, by omega, hfree⟩

/-! ### Runs without a match -/

/-- Whether a run neither comes to the end of its program nor is refused.  Such
a run has no match, and no error either. -/
def Fruitless (a : Attempt) (s₀ : State) : Prop :=
  ∀ s, a.Within [] s₀ s → s.control ≠ .run none ∧ ∀ e s', a.step s ≠ .halt (.error e) s'

/-- Whether a run goes on from a state to a link at a place.  Other branches may
have been tried and given up meanwhile. -/
def Comes (a : Attempt) (s : State) (l : Link) (x : Place) : Prop :=
  ∃ s', a.Within [] s s' ∧ s'.control = .run l ∧ s'.offset = x.offset ∧ s'.slots = x.slots

theorem Comes.before (hw : a.Within [] s s₁) (h : a.Comes s₁ l x) : a.Comes s l x :=
  h.imp fun _ => fun ⟨hw', h⟩ => ⟨hw.trans hw', h⟩

/-- Whether a match is turned away at a closure: the closure was entered by a
first state, and a second one comes to it at the same offset, with other slots
for a group that is asked for, and from there a trail leads to the end.  The
first state has gone on from the closure and failed, and the second one is not
let in. -/
structure TurnsAway (a : Attempt) (refs : ℕ → Prop) (s₀ s₁ s₂ : State) (k : ℕ) : Prop where
  first : a.Within [] s₀ s₁
  second : a.Within [] s₁ s₂
  closure : ∃ id child greedy next, a.program.ops[k]? = some (.closure id child greedy next) ∧
    a.entered? s₁ id = some false ∧ a.entered? s₂ id = some true
  first_control : s₁.control = .run (some k)
  second_control : s₂.control = .run (some k)
  offset : s₁.offset = s₂.offset
  differs : ∃ n edge, refs n ∧
    Place.recorded ⟨s₁.offset, s₁.slots⟩ n edge ≠ Place.recorded ⟨s₂.offset, s₂.slots⟩ n edge
  leads : ∃ z, Trail a s₂.mode (some k) ⟨s₂.offset, s₂.slots⟩ z

/-- Whether a run turns a match away, somewhere and at some closure.  Whether
there are other matches is left open. -/
def Hides (a : Attempt) (refs : ℕ → Prop) (s₀ : State) : Prop :=
  ∃ s₁ s₂ k, a.TurnsAway refs s₀ s₁ s₂ k

namespace Fruitless

variable (hno : a.Fruitless s₀) (hs₀ : s₀.Valid a)

include hno hs₀

/-- Without a match the machine falls back to what was on the stack, with the
slots that it had. -/
theorem falls_back (hw : a.Within [] s₀ s) (hc : s.control = .run l) :
    ∃ s', a.Within s.stack s s' ∧ s'.control = .fail ∧ s'.stack = s.stack ∧ s'.slots = s.slots := by
  obtain ⟨V, hV⟩ := a.exists_shows s
  obtain ⟨V', r, -, hr⟩ := explored s₀ s l [] [] s.stack V ⟨hw.valid hs₀, hw, hV⟩ hc rfl .none
  cases r with
  | matched e sl =>
    obtain ⟨s', fs, hw', hc', -⟩ := hr
    exact absurd hc' (hno s' (hw.trans (hw'.mono List.nil_suffix))).1
  | failed =>
    obtain ⟨s', hw', hc', hstack, hslots, -⟩ := hr
    exact ⟨s', hw', hc', hstack, hslots⟩
  | refused e =>
    obtain ⟨s', s'', hw', hhalt⟩ := hr
    exact absurd hhalt ((hno s' (hw.trans (hw'.mono List.nil_suffix))).2 e s'')

/-- Without a match the machine tries all branches, each of them from the same
place. -/
theorem branches (hw : a.Within [] s₀ s) (hc : s.control = .run l) (hstack : s.stack = fs ++ base)
    (hp : a.Pending s.offset ls fs) : ∀ l' ∈ l :: ls, a.Comes s l' ⟨s.offset, s.slots⟩ := by
  induction ls generalizing s l fs with
  | nil =>
    intro l' hl'
    obtain rfl := List.mem_singleton.mp hl'
    exact ⟨s, .refl, hc, rfl, rfl⟩
  | cons l₁ ls ih =>
    intro l' hl'
    rcases List.mem_cons.mp hl' with rfl | hl'
    · exact ⟨s, .refl, hc, rfl, rfl⟩
    · obtain ⟨s', hw', hc', hstack', hslots⟩ := hno.falls_back hs₀ hw hc
      rw [hstack] at hstack'
      obtain ⟨fs', hp', hstep⟩ := hp.step hc' hstack'
      have hnext := (hw'.mono List.nil_suffix).trans (.single hstep List.nil_suffix)
      have hcomes : a.Comes _ l' ⟨s.offset, s'.slots⟩ := ih (hw.trans hnext) rfl rfl hp' l' hl'
      refine Comes.before hnext ?_
      rw [← hslots]
      exact hcomes

/-- Without a match the machine follows every tread, but from closures at which
it is turned away. -/
theorem follow (hflat : a.program.IsFlat) (hw : a.Within [] s₀ s) (hm : s.mode = m)
    (hc : s.control = .run (some k)) (hfree : ∀ id child greedy next,
      a.program.ops[k]? = some (.closure id child greedy next) → a.entered? s id = some false)
    (tread : Tread a m k ⟨s.offset, s.slots⟩ l y) : a.Comes s l y := by
  have hk := (Within.valid hw hs₀).lt_size hc
  obtain ⟨op, hop⟩ : ∃ op, a.program.ops[k]? = some op := ⟨_, Array.getElem?_eq_getElem hk⟩
  have hexec : a.step s = a.exec k op s := by simp [step, hc, hop]
  -- A step to a first branch leaves a frame for the others.
  have hfork : ∀ {s₁ l₁ ls fs}, a.step s = .next s₁ → s₁.control = .run l₁ →
      a.Pending s₁.offset ls fs → s₁.stack = fs ++ s.stack → s₁.offset = s.offset →
        s₁.slots = s.slots → l ∈ l₁ :: ls → a.Comes s l ⟨s.offset, s.slots⟩ := by
    intro s₁ l₁ ls fs hstep hc₁ hp hstack hoffset hslots hl
    have hw₁ : a.Within [] s s₁ := .single hstep List.nil_suffix
    have hcomes := hno.branches hs₀ (hw.trans hw₁) hc₁ hstack hp l hl
    rw [hoffset, hslots] at hcomes
    exact hcomes.before hw₁
  have hmove := (tread_iff hop (hflat k op m hop)).mp tread
  cases op with
  | atom atom next =>
    obtain ⟨rfl, hread, hslots⟩ := hmove
    have hstep : a.step s = .next (s.moveTo y.offset l) := by
      rw [← hm] at hread
      rw [hexec, exec, show a.read atom s.opts s.reverse s.offset s.slots = _ from hread]
    exact ⟨_, .single hstep List.nil_suffix, rfl, rfl, hslots.symm⟩
  | union links =>
    obtain ⟨hl, rfl⟩ := hmove
    cases links with
    | nil => cases hl
    | cons l₁ links =>
      cases links with
      | nil => exact hfork hexec rfl .none rfl rfl rfl hl
      | cons l₂ links => exact hfork hexec rfl (.alternates hop rfl) rfl rfl rfl hl
  | closure id child greedy next =>
    obtain ⟨hl, rfl⟩ := hmove
    simp only [exec, hfree id child greedy next hop] at hexec
    refine hfork hexec rfl (.other hop rfl) rfl rfl rfl ?_
    cases greedy <;> exact hl
  | question child greedy next =>
    obtain ⟨hl, rfl⟩ := hmove
    refine hfork hexec rfl (.other hop rfl) rfl rfl rfl ?_
    cases greedy <;> exact hl
  | mark group edge next =>
    obtain ⟨rfl, rfl⟩ := hmove
    exact ⟨_, .single hexec List.nil_suffix, rfl, s.record_offset _, s.record_slots _⟩
  | ifGroup group yes no =>
    obtain ⟨captured, hg, rfl, rfl⟩ := hmove
    have hstep : a.step s = .next (s.goto (if captured.isSome then yes else no)) := by
      rw [hexec, exec, show capturedSpan s.slots group = _ from hg]
      cases captured <;> rfl
    exact ⟨_, .single hstep List.nil_suffix, rfl, rfl, rfl⟩
  | fail => cases hmove.1
  | look | independent | modifier | ifLook => exact absurd (hflat k _ m hop) (by simp [Op.body?])

/-- **A run that misses a match hides it.**  If a trail leads to the end from a
state of a run without a match, then somewhere a match is turned away. -/
theorem hides (hflat : a.program.IsFlat) (hrefs : a.program.RefersOnly refs)
    (hunique : a.program.ClosuresUnique) (hnew : a.Shows s₀ ∅) {x₀ : Place}
    (hstanding : Standing a m x₀ s₀) (hw : a.Within [] s₀ s) (hc : s.control = .run l)
    (h : Leads (Tread a m) n l ⟨s.offset, s.slots⟩ z) : a.Hides refs s₀ := by
  induction n generalizing s l z with
  | zero =>
    cases h
    exact absurd hc (hno s hw).1
  | succ n ih =>
    cases h with
    | @step _ k _ l y _ tread rest =>
      have hs := Within.valid hw hs₀
      have hmode : ∀ {s'}, a.Within [] s₀ s' → s'.mode = m := fun hw' =>
        (Within.standing hflat hstanding hw').mode
      by_cases hfree : ∀ id child greedy next,
          a.program.ops[k]? = some (.closure id child greedy next) → a.entered? s id = some false
      · obtain ⟨s', hw', hc', ho', hsl'⟩ := hno.follow hs₀ hflat hw (hmode hw) hc hfree tread
        exact ih (hw.trans hw') hc' (by rw [ho', hsl']; exact rest)
      · -- The closure was entered by another state of the run.
        simp only [not_forall] at hfree
        obtain ⟨id, child, greedy, next, hop, hentered⟩ := hfree
        have hid := (a.program.linked k _ hop).1
        have hmark : s.hasEntered id (s.offset - a.span.start) = true := by
          rw [hs.entered?_eq hid] at hentered
          simpa using hentered
        obtain ⟨s₁, k', child', greedy', next', hw₁, hw₂, hc₁, hop', ho₁, hentered₁⟩ :=
          exists_entry hs₀ hnew hw hid hs.offset_mem hmark
        -- Whether that state would have found the match is a question of its captures.
        obtain rfl : k' = k := hunique _ _ _ _ _ _ _ _ _ hop' hop
        by_cases hagree : ∀ n, refs n → ∀ edge, Place.recorded ⟨s₁.offset, s₁.slots⟩ n edge =
            Place.recorded ⟨s.offset, s.slots⟩ n edge
        · -- With the same captures the first state would find the match as well.
          have hsize : ∀ {s'}, a.Within [] s₀ s' →
              s'.slots.map Array.size = x₀.slots.map Array.size := fun hw' =>
            (Within.standing hflat hstanding hw').size
          have hx : Place.AgreesOn refs ⟨s.offset, s.slots⟩ ⟨s₁.offset, s₁.slots⟩ :=
            ⟨ho₁, (hsize hw₁).trans (hsize hw).symm, hagree⟩
          obtain ⟨z', h⟩ := Leads.transfer hflat hrefs (.step tread rest) hx
          cases h with
          | step tread' rest' =>
            have hfree₁ : ∀ id child greedy next,
                a.program.ops[k']? = some (.closure id child greedy next) →
                  a.entered? s₁ id = some false := by
              intro id' child' greedy' next' hop''
              cases hop'.symm.trans hop''
              exact hentered₁
            obtain ⟨s', hw', hc', ho', hsl'⟩ :=
              hno.follow hs₀ hflat hw₁ (hmode hw₁) hc₁ hfree₁ tread'
            exact ih (hw₁.trans hw') hc' (by rw [ho', hsl']; exact rest')
        · simp only [not_forall] at hagree
          obtain ⟨n, hn, edge, hne⟩ := hagree
          exact ⟨s₁, s, k', hw₁, hw₂, ⟨id, child, greedy, next, hop, hentered₁, by
            rw [hs.entered?_eq hid, hmark]⟩, hc₁, hc, ho₁, ⟨n, edge, hn, hne⟩, z,
            hmode hw ▸ trail_iff_leads.mpr ⟨_, .step tread rest⟩⟩

end Fruitless

/-- A match that is turned away can be found from the start.  The way to it goes
by the closure at which it was turned away. -/
theorem Hides.trail {x₀ : Place} (hflat : a.program.IsFlat) (hstanding : Standing a m x₀ s₀)
    (h : a.Hides refs s₀) : ∃ z, Trail a m a.program.start x₀ z := by
  obtain ⟨s₁, s₂, k, h⟩ := h
  obtain ⟨z, htrail⟩ := h.leads
  have hs₂ := Within.standing hflat hstanding (h.first.trans h.second)
  rw [hs₂.mode] at htrail
  exact ⟨z, hs₂.control _ h.second_control z htrail⟩

end Attempt

/-! ### Attempts -/

/-- Whether a pattern asks for what a group has captured, by a reference or by a
condition. -/
def Pattern.RefersTo (p : Pattern) (g : ℕ) : Prop := ∃ f ∈ p.features, f.group? = some g

theorem Program.refersOnly_ofPattern (p : Pattern) : (ofPattern p).RefersOnly p.RefersTo :=
  fun _ _ f _ hop hf hg => ⟨f, feature_mem p hop hf, hg⟩

namespace Attempt

variable {p : Pattern} {opts : Options} {offset : ℕ} {cache : Cache} {slots : Option Slots}

/-- A run that ends without a match and without a refusal is fruitless.  Without
bodies, and if any end is welcome, to come to the end of the program is to
match. -/
theorem fruitless_of_answer (hflat : a.program.IsFlat) (hwhole : a.whole = false)
    (ho : a.InSpan offset) (h : (a.run cache opts slots offset).answer = .ok none) :
    a.Fruitless (a.start cache opts slots offset) := by
  have hvalid : (a.start cache opts slots offset).Valid a := start_valid ho
  rw [run, dif_pos ho] at h
  intro s hw
  rw [loop_eq_of_within hw hvalid] at h
  have hdepth := (Within.standing hflat (.start cache opts slots offset) hw).depth
  constructor
  · intro hc
    have hstep : a.step s = .halt (.ok (some s.offset)) s := by
      simp [step, hc, accept_eq, hdepth, hwhole]
    rw [loop_eq_of_halt _ hstep] at h
    cases h
  · intro e s' hstep
    rw [loop_eq_of_halt _ hstep] at h
    cases h

/-- Nothing is captured when an attempt begins, so the slots say of no group
that it has taken part. -/
theorem meets_fresh (ho : a.InSpan offset) :
    Meets a (slots.map Array.size) (fun _ => none) ⟨offset, fresh slots⟩ (.fresh offset) where
  offset := rfl
  inSpan := ho
  size := by
    rw [fresh, Option.map_map]
    exact congrArg (Option.map · slots) (funext fun slots => Array.size_replicate)
  opened n i h := by cases h
  closed n _ _ edge := recorded_fresh
  text n region h := by cases h

/-- **Loop detection hides a match only where captures differ.**  A flat pattern
whose references are valid can be run.  If it has a derivation that threads
captures, the attempt succeeds unless a match is turned away: a closure is
entered, and later the machine comes back to it at the same offset, with other
captures of a group that is asked for, and from there it would succeed. -/
theorem run_finds_or_hides (hflat : p.IsFlat) (hproper : p.IsProper) (t : Target) (span : Span)
    (ht : OnText ⟨.ofPattern p, t, span, false⟩) (hstop : span.stop < maxOffset) (cache : Cache)
    (opts : Options) (slots : Option Slots)
    (hserved : ∀ f ∈ p.features, f.Served (slots.map Array.size)) (offset : ℕ)
    (ho : InSpan ⟨.ofPattern p, t, span, false⟩ offset) :
    let a : Attempt := ⟨.ofPattern p, t, span, false⟩
    let answer := (a.run cache opts slots offset).answer
    let hides := a.Hides p.RefersTo (a.start cache opts slots offset)
    let derives := fun nonempty => ∃ y, p.Threads t span nonempty opts (.fresh offset) y
    (answer = .ok none ∨ ∃ e, answer = .ok (some e)) ∧
      (∀ e, answer = .ok (some e) →
        ∃ y, y.offset = e ∧ p.Threads t span false opts (.fresh offset) y) ∧
      (∀ nonempty, derives nonempty → ¬ hides → ∃ e, answer = .ok (some e)) ∧
      (hides → derives false) := by
  intro a answer hides derives
  have hprogram : a.program = .ofPattern p := rfl
  have hflat' : a.program.IsFlat := Program.isFlat_ofPattern hflat
  have hunique : a.program.ClosuresUnique := fun _ _ _ _ _ _ _ _ _ => Program.closure_unique p
  have hstanding : Standing a ⟨false, opts⟩ ⟨offset, fresh slots⟩
      (a.start cache opts slots offset) := .start cache opts slots offset
  have hobeys : Obeys (.places a) a.program.ops true false (Tread a) := obeys_places_flat
  have hgood : (Meaning.places a).good ⟨offset, fresh slots⟩ := ho
  have hconveys := start_conveys hobeys ⟨_, hgood⟩ hprogram (fun _ => hflat) opts
  have hmeets : Meets a (slots.map Array.size) (fun _ => none) ⟨offset, fresh slots⟩
    (.fresh offset) := meets_fresh ho
  have hmirrors : ∀ nonempty strict, Mirrors (nonempty = false)
      (p.Walks (.places a) strict ⟨false, opts⟩) (p.Threads t span nonempty opts)
        (Meets a (slots.map Array.size) fun _ => none) := fun nonempty strict =>
    Pattern.mirrors ht hstop p (fun _ => none) ⟨hflat, hproper, hserved, fun _ _ => rfl⟩
  obtain ⟨r, hr, hreports⟩ := a.exists_discovers cache opts slots ho
  have hanswers := hr.answers hprogram hserved hmeets.size
  refine ⟨?_, ?_, ?_, ?_⟩
  · obtain ⟨stop, hstop⟩ := hanswers.exists_stop
    rw [← hreports.answer_iff] at hstop
    cases stop with
    | none => exact .inl hstop
    | some e => exact .inr ⟨e, hstop⟩
  · intro e he
    cases r with
    | matched e' sl' =>
      cases hreports.1.symm.trans he
      obtain ⟨y, hy, hmeets'⟩ :=
        (hmirrors false false).forth rfl _ _ _ hmeets (hr.walks hprogram ho)
      exact ⟨y, hmeets'.offset, hy⟩
    | failed => cases hreports.1.symm.trans he
    | refused e => exact hanswers.elim
  · rintro nonempty ⟨y, hy⟩ hnone
    cases r with
    | matched e sl' => exact ⟨e, hreports.1⟩
    | failed =>
      -- The derivation is a trail, and a run without a match turns it away.
      obtain ⟨x, hx, -⟩ := (hmirrors nonempty true).back _ _ _ hmeets hy
      obtain ⟨n, hleads⟩ := hconveys.exists_leads rfl hgood hx
      have hno := fruitless_of_answer hflat' rfl ho hreports.1
      exact absurd (hno.hides (start_valid ho) hflat' (Program.refersOnly_ofPattern p) hunique
        (start_running ho).shows_marks hstanding .refl rfl hleads) hnone
    | refused e => exact hanswers.elim
  · intro h
    obtain ⟨z, htrail⟩ := h.trail hflat' hstanding
    obtain ⟨n, hleads⟩ := htrail.leads
    obtain ⟨y, hy, -⟩ :=
      (hmirrors false true).forth rfl _ _ _ hmeets (hconveys.of_leads hgood hleads)
    exact ⟨y, hy⟩

/-- Two ways to a loop with one capture: `(a)(?:b|b)c*(?(1)d|e)` on `abe`.  The
machine comes to the loop twice and is turned away the second time, but with the
capture that it had before, so that nothing is hidden. -/
theorem run_finds_or_hides_reentered :
    let p : Pattern := .concat [.group (some 1) (.char 'a'), .union [.char 'b', .char 'b'],
      .repetition (.char 'c') 0 none true, .ifGroup 1 (.char 'd') (some (.char 'e'))]
    let a : Attempt := ⟨.ofPattern p, .bufferOfString "abe", ⟨0, 3⟩, false⟩
    let slots : Option Slots := some (.replicate 4 none)
    ¬ a.Hides p.RefersTo (a.start .empty .empty slots 0) ∧
      ¬ ∃ y, p.Threads (.bufferOfString "abe") ⟨0, 3⟩ false .empty (.fresh 0) y := by
  intro p a slots
  have hflat : p.IsFlat := fun f hf => by
    obtain rfl := List.mem_singleton.mp hf
    rfl
  have hproper : p.IsProper := by
    simp [Pattern.IsProper, p, Pattern.subpatterns, Pattern.subpatternsAll, Pattern.mentions]
  have hserved : ∀ f ∈ p.features, f.Served (slots.map Array.size) := by
    intro f hf g hg
    obtain rfl := List.mem_singleton.mp hf
    cases hg
    exact ⟨4, rfl, by decide, by decide⟩
  have hanswer : (Attempt.run ⟨.ofPattern p, .bufferOfString "abe", ⟨0, 3⟩, false⟩ .empty .empty
      slots 0).answer = .ok none := by cbv
  have hclosures : ∀ k < a.program.ops.size, k ≠ 3 →
      (a.program.ops[k]?.any Op.isClosure) = false := by decide +kernel
  have hruns : a.holdsAlong (fun s => s.control = .run (some 3) →
      s.slots = some #[none, none, some 0, some 1]) 20 (a.start .empty .empty slots 0) = true := by
    decide +kernel
  have hhides : ¬ a.Hides p.RefersTo (a.start .empty .empty slots 0) := by
    rintro ⟨s₁, s₂, k, hturns⟩
    obtain ⟨id, child, greedy, next, hop, -⟩ := hturns.closure
    obtain rfl : k = 3 := by
      by_contra hne
      have hclosure := hclosures k (Array.getElem?_eq_some_iff.mp hop).1 hne
      rw [hop] at hclosure
      cases hclosure
    have h₁ := hturns.first.holds hruns hturns.first_control
    have h₂ := (hturns.first.trans hturns.second).holds hruns hturns.second_control
    obtain ⟨n, edge, -, hne⟩ := hturns.differs
    exact hne (by rw [hturns.offset, h₁, h₂])
  have h := run_finds_or_hides hflat hproper (.bufferOfString "abe") ⟨0, 3⟩ ⟨trivial, rfl, rfl⟩
    (by decide) .empty .empty slots hserved 0 (by decide)
  refine ⟨hhides, fun hthreads => ?_⟩
  obtain ⟨e, he⟩ := h.2.2.1 false hthreads hhides
  cases hanswer.symm.trans he

/-- Two ways to a loop, with a capture and without one: `(?:(a)|a)b*(?(1)c|d)`
on `ad`.  When the machine comes to the loop without the capture it is turned
away, and it misses the match. -/
theorem not_run_finds_threads_loop :
    let p : Pattern := .concat [.union [.group (some 1) (.char 'a'), .char 'a'],
      .repetition (.char 'b') 0 none true, .ifGroup 1 (.char 'c') (some (.char 'd'))]
    (Attempt.run ⟨.ofPattern p, .bufferOfString "ad", ⟨0, 2⟩, false⟩ .empty .empty
        (some (.replicate 4 none)) 0).answer = .ok none ∧
      ∃ y, p.Threads (.bufferOfString "ad") ⟨0, 2⟩ true .empty (.fresh 0) y := by
  intro p
  refine ⟨by cbv, .fresh 2, .fresh 1, .inr (.inl ⟨rfl, ?_⟩), .fresh 1, ⟨0, le_rfl, nofun, rfl⟩,
    .fresh 2, .inr ⟨rfl, rfl, ?_⟩, rfl⟩
  · exact Target.spells_singleton.mpr ⟨'a', ⟨0, rfl, rfl, rfl, by decide, by decide⟩, by decide⟩
  · exact Target.spells_singleton.mpr ⟨'d', ⟨1, rfl, rfl, rfl, by decide, by decide⟩, by decide⟩

end Attempt

end Regexp
