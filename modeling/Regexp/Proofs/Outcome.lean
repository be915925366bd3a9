import Regexp.Proofs.Simulation
import Regexp.Proofs.Transfer

/-!
# What attempts find

What an attempt finds depends on the program, the text, the span, the options
and the offset, and on nothing that was handed to it.  `Attempt.Discovers` is
this outcome, as a relation: an exploration from the start, without marks and
with all slots unset.  Every attempt has one (`Attempt.exists_discovers`) and no
more than one (`Attempt.Discovers.unique`), and from here on attempts are
reasoned about through it.

Two things are said of attempts for patterns of any kind, with lookarounds,
references and independent groups.

* A match that is found has a derivation, and it ends in the span.  The
  derivations are generous: a lookaround may be taken to have failed even if its
  body has a derivation.  This is what can be said of all patterns, and it is
  enough to tell where there cannot be a match.
* A program that refers to existing groups can be run.  A refusal comes about
  only where there is no slot for a group that is asked for (`Feature.Served`).

The end of a match lies behind its beginning, but in between the machine may
have walked backward.  `Lies` is the account of this which is kept by an
exploration: outside of lookbehinds the walk goes on, and inside of them it goes
back.

## Main definitions

* `Attempt.Discovers` — what an attempt from an offset finds.
* `Feature.Served` — whether the slots have room for the group that a feature
  refers to.

## Main statements

* `Attempt.exists_discovers` — an attempt reports what it discovers.
* `Attempt.Discovers.unique` — there is only one thing to discover.
* `Attempt.Discovers.derives` — a match has a derivation.
* `Attempt.Discovers.answers` — a program that refers to existing groups can be
  run.
-/

namespace Regexp

variable {a : Attempt} {watch : ℕ → Mode → ℕ → Marks → Prop} {top : Bool} {m : Mode}
  {V V' : Marks} {links : List Link} {i j k e : ℕ} {sl sl' : Option Slots} {r r' : Discovery}
  {own : ℕ → ℕ}

/-! ### Offsets -/

/-- Whether an offset comes before another one in the direction of a walk, or is
the same. -/
def Precedes (reverse : Bool) (i j : ℕ) : Prop :=
  match reverse with
  | false => i ≤ j
  | true => j ≤ i

theorem Precedes.refl {reverse : Bool} : Precedes reverse i i := by cases reverse <;> exact le_rfl

theorem Precedes.trans {reverse : Bool} (h : Precedes reverse i j) (h' : Precedes reverse j k) :
    Precedes reverse i k := by
  cases reverse with
  | false => exact Nat.le_trans h h'
  | true => exact Nat.le_trans h' h

namespace Attempt

/-- Reading a character goes on in the direction of the walk. -/
theorem precedes_of_readChar {reverse : Bool} {test : Char → Bool}
    (h : a.readChar reverse i test = some j) : Precedes reverse i j := by
  obtain ⟨c, hnext, -⟩ := readChar_eq_some_iff.mp h
  cases reverse with
  | false => exact (Target.charAfter_bounds hnext).1.le
  | true => exact (Target.charBefore_bounds hnext).2.le

/-- Reading goes on in the direction of the walk.  It may stay where it is, as a
reference to an empty group does. -/
theorem precedes_of_read {atom : Atom} {opts : Options} {reverse : Bool} (hi : a.InSpan i)
    (h : a.read atom opts reverse i sl = .ok (some j)) : Precedes reverse i j := by
  cases atom with
  | char c => exact precedes_of_readChar (Except.ok.inj h)
  | range set folded negated => exact precedes_of_readChar (Except.ok.inj h)
  | dot => exact precedes_of_readChar (Except.ok.inj h)
  | string chars =>
    cases reverse with
    | false => exact (Target.regionMatches_bounds (Except.ok.inj h) hi.2).1
    | true => exact (Target.regionMatchesBack_bounds (Except.ok.inj h) hi.1).2
  | anchor anchor =>
    have h := Except.ok.inj h
    split at h
    · cases h
      exact .refl
    · cases h
  | backref group =>
    simp only [read] at h
    split at h
    · cases h
    · cases h
    · cases reverse with
      | false => exact (Target.repeatsFrom_bounds (Except.ok.inj h) hi.2).1
      | true => exact (Target.repeatsUpTo_bounds (Except.ok.inj h) hi.1).2

/-- Reading forward does not go back. -/
theorem le_of_read {atom : Atom} {opts : Options} (hi : a.InSpan i)
    (h : a.read atom opts false i sl = .ok (some j)) : i ≤ j := precedes_of_read hi h

end Attempt

/-- How the end of a match lies to the offset at which it begins: in the span,
and not before it if characters are read forward. -/
structure Lies (a : Attempt) (m : Mode) (i e : ℕ) : Prop where
  inSpan : a.InSpan e
  le : m.reverse = false → i ≤ e

theorem Lies.trans (h : a.InSpan j → Lies a m j e) (h' : Lies a m i j) : Lies a m i e :=
  ⟨(h h'.inSpan).inSpan, fun hm => (h'.le hm).trans ((h h'.inSpan).le hm)⟩

/-- A lookaround goes on where it has begun, so what goes on elsewhere is none. -/
theorem Op.ne_look_of_resume {op : Op} {stop : ℕ} {link : Link}
    (hgo : op.resume? i (some stop) = some (.go stop link)) (hne : stop ≠ i)
    (kind : LookKind) (child next : Link) : op ≠ .look kind child next := by
  rintro rfl
  simp only [Op.resume?] at hgo
  split at hgo
  · cases hgo
  · cases hgo
    exact hne rfl

/-- Where an exploration goes on after a match within the match: where it began,
or at the end that was found. -/
theorem Lies.of_resume {op : Op} {child link : Link} {m' : Mode} {stop : Option ℕ}
    {sl₁ : Option Slots} (hop : a.program.ops[k]? = some op) (hb : op.body? m = some (child, m'))
    (hr : r.ending? sl = some (stop, sl₁)) (hgo : op.resume? i stop = some (.go j link))
    (hi : a.InSpan i) (hbody : ∀ e sl', r = .matched e sl' → Lies a m' i e) : Lies a m i j := by
  by_cases hji : j = i
  · subst hji
    exact ⟨hi, fun _ => le_rfl⟩
  · obtain rfl : stop = some j := (Attempt.resume?_go hop hgo).2.resolve_left hji
    obtain rfl : r = .matched j sl₁ := by
      cases r <;> cases hr
      rfl
    have hj := hbody j sl₁ rfl
    refine ⟨hj.inSpan, fun hm => hj.le ?_⟩
    rw [Op.reverse_of_body hb (Op.ne_look_of_resume hgo hji), hm]

/-- A match ends in the span, and not before its start if the text is walked
over forward. -/
theorem Explores.lies (h : Explores a watch top m V links i sl V' r) (hi : a.InSpan i) :
    ∀ e sl', r = .matched e sl' → Lies a m i e := by
  induction h with
  | accept =>
    rintro e sl' ⟨⟩
    exact ⟨hi, fun _ => le_rfl⟩
  | read hop hread _ ih =>
    intro e sl' hr
    have hj := Attempt.read_inSpan hi hread
    exact .trans (fun hj => ih hj e sl' hr) ⟨hj, fun hm => Attempt.le_of_read hi (hm ▸ hread)⟩
  | choose _ _ _ ih | enter _ _ _ ih | mark _ _ ih | test _ _ _ ih | first _ _ ih => exact ih hi
  | later _ _ _ ih => exact ih hi
  | resume hop hb _ _ hr hgo _ ihb ih =>
    intro e sl' hr'
    exact .trans (fun hj => ih hj e sl' hr') (.of_resume hop hb hr hgo hi (ihb hi))
  | _ =>
    rintro e sl' hr
    cases hr

/-! ### Paths of matches -/

/-- A match that is found lies at the end of a path.  The path avoids nothing,
since marks only keep an exploration from ways. -/
theorem Explores.reaches (hown : a.program.Owned own)
    (h : Explores a watch top m V links i sl V' r) :
    ∀ e sl', r = .matched e sl' → ∃ n, ∃ l ∈ links, Reaches a (Ends a false) ∅ m n l i e := by
  induction h with
  | accept =>
    rintro e sl' ⟨⟩
    exact ⟨0, none, List.mem_cons_self, .done⟩
  | read hop hread _ ih =>
    intro e sl' hr
    obtain ⟨n, l, hl, hpath⟩ := ih e sl' hr
    obtain rfl := List.mem_singleton.mp hl
    exact ⟨n + 1, _, List.mem_cons_self, .step (.read hop hread) hpath⟩
  | choose hop hc _ ih =>
    intro e sl' hr
    obtain ⟨n, l, hl, hpath⟩ := ih e sl' hr
    exact ⟨n + 1, _, List.mem_cons_self, .step (.choose hop hc hl) hpath⟩
  | enter hop _ _ ih =>
    intro e sl' hr
    obtain ⟨n, l, hl, hpath⟩ := ih e sl' hr
    exact ⟨n + 1, _, List.mem_cons_self, .step (.enter hop (Set.notMem_empty _) hl) hpath⟩
  | mark hop _ ih =>
    intro e sl' hr
    obtain ⟨n, l, hl, hpath⟩ := ih e sl' hr
    obtain rfl := List.mem_singleton.mp hl
    exact ⟨n + 1, _, List.mem_cons_self, .step (.mark hop) hpath⟩
  | test hop _ _ ih =>
    intro e sl' hr
    obtain ⟨n, l, hl, hpath⟩ := ih e sl' hr
    obtain rfl := List.mem_singleton.mp hl
    exact ⟨n + 1, _, List.mem_cons_self, .step (.test hop (by split <;> simp)) hpath⟩
  | @resume _ m _ k i _ _ r₁ _ _ op _ _ stop sl₁ _ _ hop hb _ _ hr hgo _ ihb ih =>
    intro e sl' hr'
    obtain ⟨n, l, hl, hpath⟩ := ih e sl' hr'
    obtain rfl := List.mem_singleton.mp hl
    -- A body that fails is taken at its word, so that only one that matches needs a path.
    have hends : Ends a false k m i stop := by
      cases stop with
      | none => exact (ends_none_iff hown).mpr nofun
      | some j =>
        obtain rfl : r₁ = .matched j sl₁ := by
          cases r₁ <;> cases hr
          rfl
        obtain ⟨n', l', hl', hbody⟩ := ihb j sl₁ rfl
        obtain rfl := List.mem_singleton.mp hl'
        exact (ends_some_iff hown).mpr ⟨op, _, _, n', hop, hb, hbody⟩
    exact ⟨n + 1, _, List.mem_cons_self, .step (.resume hop hb hends hgo) hpath⟩
  | first _ _ ih =>
    intro e sl' hr
    obtain ⟨n, l, hl, hpath⟩ := ih e sl' hr
    obtain rfl := List.mem_singleton.mp hl
    exact ⟨n, _, List.mem_cons_self, hpath⟩
  | later _ _ _ ih =>
    intro e sl' hr
    obtain ⟨n, l, hl, hpath⟩ := ih e sl' hr
    exact ⟨n, l, List.mem_cons_of_mem _ hl, hpath⟩
  | _ =>
    rintro e sl' hr
    cases hr

/-! ### Groups that exist -/

/-- The group that a feature refers to. -/
def Feature.group? : Feature → Option ℕ
  | reference g | groupTest g => some g
  | _ => none

/-- Whether the slots, of which there may be `n`, have room for the group that a
feature refers to.  Group zero is the whole match and cannot be referred to. -/
def Feature.Served (n : Option ℕ) (f : Feature) : Prop :=
  ∀ g, f.group? = some g → ∃ size, n = some size ∧ 0 < g ∧ g < size / 2

theorem exists_capturedSpan {f : Feature} {g : ℕ} {n : Option ℕ} (hsl : sl.map Array.size = n)
    (h : f.Served n) (hf : f.group? = some g) : ∃ c, capturedSpan sl g = .ok c := by
  replace h := h g hf
  obtain ⟨size, rfl, hg, hlt⟩ := h
  obtain ⟨slots, rfl, rfl⟩ := Option.map_eq_some_iff.mp hsl
  unfold capturedSpan
  simp only
  rw [if_neg (by omega)]
  split <;> exact ⟨_, rfl⟩

/-- Whether a discovery is no refusal and leaves as many slots as there were.
To have failed is an answer. -/
def Discovery.Answers (n : Option ℕ) : Discovery → Prop
  | matched _ sl => sl.map Array.size = n
  | failed => True
  | refused _ => False

theorem Discovery.Answers.exists_stop {n : Option ℕ} (h : r.Answers n) :
    ∃ stop, r.stop? = some stop := by
  cases r with
  | refused => exact h.elim
  | _ => exact ⟨_, rfl⟩

theorem Discovery.Answers.of_ending {n : Option ℕ} {stop : Option ℕ} (h : r.Answers n)
    (hsl : sl.map Array.size = n) (hr : r.ending? sl = some (stop, sl')) :
    sl'.map Array.size = n := by
  cases r with
  | matched => cases hr; exact h
  | failed => cases hr; exact hsl
  | refused => cases hr

/-- An atom can be read if the slots have room for its group.  Only references
ask for a group. -/
theorem Attempt.read_ne_error_of_served {n : Option ℕ} {atom : Atom} {next : Link} {opts : Options}
    {reverse : Bool} {error : MatchError} (hsl : sl.map Array.size = n)
    (hserved : ∀ f, (Op.atom atom next).feature? = some f → f.Served n) :
    a.read atom opts reverse i sl ≠ .error error := by
  cases atom with
  | backref g =>
    obtain ⟨c, hc⟩ := exists_capturedSpan hsl (hserved _ rfl) rfl
    simp only [read, hc]
    cases c <;> simp
  | _ => simp [read]

/-- An exploration has an answer if the slots have room for all groups that are
referred to. -/
theorem Explores.answers {n : Option ℕ} (hserved : ∀ (k : ℕ) (op : Op) (f : Feature),
    a.program.ops[k]? = some op → op.feature? = some f → f.Served n)
    (h : Explores a watch top m V links i sl V' r) (hsl : sl.map Array.size = n) : r.Answers n := by
  induction h with
  | accept => exact hsl
  | short | unread | reenter | fail | abandon | nil => trivial
  | unreadable hop hread =>
    exact Attempt.read_ne_error_of_served hsl (fun f => hserved _ _ f hop) hread
  | untestable hop hg =>
    obtain ⟨c, hc⟩ := exists_capturedSpan hsl (hserved _ _ _ hop rfl) rfl
    cases hc.symm.trans hg
  | mark _ _ ih =>
    refine ih ?_
    rw [← hsl, recordIn, Option.map_map]
    simp [Function.comp_def]
  | read _ _ _ ih | choose _ _ _ ih | enter _ _ _ ih | test _ _ _ ih | first _ _ ih => exact ih hsl
  | later _ _ _ ih => exact ih hsl
  | resume _ _ _ _ hr _ _ ihb ih => exact ih ((ihb hsl).of_ending hsl hr)
  | refuse _ _ _ _ ihb => exact ihb hsl

/-! ### Attempts -/

namespace Attempt

variable {opts : Options} {offset : ℕ}

/-- Whether something is what an attempt from an offset finds: an exploration
from the start of the program, with no marks, ends with it. -/
def Discovers (a : Attempt) (opts : Options) (slots : Option Slots) (offset : ℕ)
    (r : Discovery) : Prop :=
  ∃ V', Explores a (fun _ _ _ _ => True) true ⟨false, opts⟩ ∅ [a.program.start] offset slots V' r

/-- There is only one thing to discover, from given options, slots and offset. -/
theorem Discovers.unique (h : Discovers a opts sl offset r) (h' : Discovers a opts sl offset r') :
    r = r' := by
  obtain ⟨V, h⟩ := h
  obtain ⟨V', h'⟩ := h'
  exact (h.unique h').2

/-- An attempt reports what it discovers, whatever the cache holds. -/
theorem exists_discovers (cache : Cache) (opts : Options) (slots : Option Slots)
    (ho : a.InSpan offset) : ∃ r, Discovers a opts (fresh slots) offset r ∧
      Reports (fresh slots) (a.run cache opts slots offset) r := by
  obtain ⟨V', r, he, hr⟩ := explores_run cache opts slots ho
  exact ⟨r, ⟨V', he.mono fun _ _ _ _ _ => trivial⟩, hr⟩

/-- A match that is discovered has a derivation, and it ends in the span.  Slots
have no part in this. -/
theorem Discovers.derives {p : Pattern} (ht : a.OnText) (hprogram : a.program = .ofPattern p)
    (ho : a.InSpan offset) (h : Discovers a opts sl offset (.matched e sl')) :
    Pattern.Derives a.target a.span false false opts p offset e ∧ a.InSpan e := by
  obtain ⟨V', h⟩ := h
  obtain ⟨own, hown, -⟩ := Program.exists_owned p
  rw [← hprogram] at hown
  obtain ⟨n, l, hl, hpath⟩ := h.reaches hown e sl' rfl
  obtain rfl := List.mem_singleton.mp hl
  exact ⟨derives_of_reaches ht hprogram ho hpath, (h.lies ho e sl' rfl).inSpan⟩

/-- A program that refers to existing groups can be run.  It may find nothing,
but it is not refused. -/
theorem Discovers.answers {p : Pattern} {n : Option ℕ} (hprogram : a.program = .ofPattern p)
    (hserved : ∀ f ∈ p.features, f.Served n) (hsl : sl.map Array.size = n)
    (h : Discovers a opts sl offset r) : r.Answers n := by
  obtain ⟨V', h⟩ := h
  refine h.answers (fun k op f hop hf => hserved f ?_) hsl
  rw [hprogram] at hop
  exact Program.feature_mem p hop hf

end Attempt

end Regexp
