import Regexp.Proofs.Outcome
import Regexp.Proofs.WhitePath

/-!
# Recognition

An attempt finds a match just where its pattern has a derivation, as long as the
marks do not close the bodies of the lookarounds on its way.

The two halves of this have been shown separately.  An exploration finds a path
if there is one (`Explores.white_path`), and paths are derivations
(`Attempt.reaches_iff_derives`).  Here they are put together for attempts, which
begin without marks: `Attempt.run_of_fits` for any account of how matches within
the match end that fits what explorations come to, and
`Attempt.run_of_undisturbed` for the account by derivations.

An answer has to be there in the first place.  An exploration can end with a
refusal only where something asks for a group that has no slots, and steady
patterns ask for none (`Explores.exists_stop`, `Explores.ne_refused`).

## Main definitions

* `Pattern.IsSteady` — patterns whose constructs do the same whatever was
  recorded.

## Main statements

* `Explores.exists_stop` — an exploration has an answer if nothing asks for what
  was recorded.
* `Attempt.run_of_fits` — an attempt finds a path to a match, if there is one.
* `Attempt.run_of_undisturbed` — an attempt decides whether there is a
  derivation.
-/

namespace Regexp

/-- Whether a pattern has no constructs beyond plain ones and lookarounds. -/
def Pattern.IsSteady (p : Pattern) : Prop := ∀ f ∈ p.features, f = .lookaround ∨ f = .conditional

theorem Pattern.IsSteady.op {p : Pattern} (hp : p.IsSteady) {k : ℕ} {op : Op}
    (hop : (Program.ofPattern p).ops[k]? = some op) : op.isSteady = true :=
  Op.isSteady_of_feature fun f hf => hp f (Program.feature_mem p hop hf)

theorem Pattern.IsSteady.reference_notMem {p : Pattern} (hp : p.IsSteady) (g : ℕ) :
    .reference g ∉ p.features := fun h => by
  rcases hp _ h with h | h <;> cases h

variable {a : Attempt} {watch : ℕ → Mode → ℕ → Marks → Prop} {top : Bool} {m : Mode}
  {V V' : Marks} {links : List Link} {i : ℕ} {sl : Option Slots} {r : Discovery}

/-- An indifferent operation refers to no group. -/
theorem Op.group?_eq_none {op : Op} {f : Feature} (h : op.isIndifferent = true)
    (hf : op.feature? = some f) : f.group? = none := by
  cases op with
  | atom atom next =>
    cases atom with
    | backref => cases h
    | _ => cases hf
  | ifGroup => cases h
  | _ => cases hf <;> rfl

/-- An exploration of indifferent operations has an answer. -/
theorem Explores.exists_stop
    (h : ∀ (k : ℕ) (op : Op), a.program.ops[k]? = some op → op.isIndifferent = true)
    (he : Explores a watch top m V links i sl V' r) : ∃ stop, r.stop? = some stop := by
  have hanswers : r.Answers (sl.map Array.size) := by
    refine he.answers (fun k op f hop hf g hg => ?_) rfl
    rw [Op.group?_eq_none (h k op hop) hf] at hg
    cases hg
  exact hanswers.exists_stop

/-- An exploration of steady operations is not refused. -/
theorem Explores.ne_refused
    (hsteady : ∀ (k : ℕ) (op : Op), a.program.ops[k]? = some op → op.isSteady = true)
    (h : Explores a watch top m V links i sl V' r) : ∀ e, r ≠ .refused e := by
  obtain ⟨stop, hstop⟩ :=
    h.exists_stop fun k op hop => Op.isIndifferent_of_isSteady (hsteady k op hop)
  rintro e rfl
  cases hstop

namespace Attempt

variable {p : Pattern} {O : Endings} {offset : ℕ}

/-- **An attempt finds a path to a match, if there is one**, as long as matches
within the match end as explorations come to them.  What `Fits` asks for is the
whole difference between kinds of patterns here. -/
theorem run_of_fits (hprogram : a.program = .ofPattern p) (cache : Cache) (opts : Options)
    (slots : Option Slots) (ho : a.InSpan offset)
    (hindifferent : ∀ (k : ℕ) (op : Op), a.program.ops[k]? = some op → op.isIndifferent = true)
    (hfits : ∀ own, a.program.Owned own →
      Fits a (a.Visits (a.start cache opts slots offset)) own O) :
    (∃ e, Accepts a true e ∧ (∃ n, Reaches a O ∅ ⟨false, opts⟩ n a.program.start offset e) ∧
        (a.run cache opts slots offset).answer = .ok (some e)) ∨
      ((a.run cache opts slots offset).answer = .ok none ∧
        Dead a O ∅ true ⟨false, opts⟩ a.program.start offset) := by
  obtain ⟨own, hown, hstart⟩ := Program.exists_owned p
  have hunique : a.program.ClosuresUnique := by
    rw [hprogram]
    exact fun _ _ _ _ _ _ _ _ _ => Program.closure_unique p
  rw [← hprogram] at hown hstart
  obtain ⟨V', r, he, hr⟩ := explores_run cache opts slots ho
  have htells := he.tells hown hunique hindifferent (hfits own hown) (linksIn_singleton hstart)
  cases r with
  | matched e sl =>
    obtain ⟨haccepts, n, l, hl, hpath⟩ := htells
    obtain rfl := List.mem_singleton.mp hl
    exact .inl ⟨e, haccepts, ⟨n, hpath.mono (Set.empty_subset _)⟩, hr.1⟩
  | failed =>
    refine .inr ⟨hr.1, ?_⟩
    simpa using htells.links_dead _ List.mem_cons_self
  | refused e =>
    obtain ⟨stop, hstop⟩ := he.exists_stop hindifferent
    cases hstop

/-- **An attempt decides whether there is a derivation**, if the marks at each
lookaround on its way leave a path through the body if there is one. -/
theorem run_of_undisturbed (hp : p.IsSteady) (ht : a.OnText) (hprogram : a.program = .ofPattern p)
    (cache : Cache) (opts : Options) (slots : Option Slots) (ho : a.InSpan offset)
    (hwatch : ∀ k m i V, a.Visits (a.start cache opts slots offset) k m i V →
      Undisturbed a k m i V) :
    (∃ e, Accepts a true e ∧ Pattern.Derives a.target a.span true false opts p offset e ∧
        (a.run cache opts slots offset).answer = .ok (some e)) ∨
      ((a.run cache opts slots offset).answer = .ok none ∧ ∀ e, Accepts a true e →
        ¬Pattern.Derives a.target a.span true false opts p offset e) := by
  have hsteady : ∀ (k : ℕ) (op : Op), a.program.ops[k]? = some op → op.isSteady = true := by
    rw [hprogram]
    exact fun k op => hp.op
  have hpaths : ∀ e, (∃ n, Reaches a (Ends a true) ∅ ⟨false, opts⟩ n a.program.start offset e) ↔
      Pattern.Derives a.target a.span true false opts p offset e := fun _ =>
    reaches_iff_derives ht hprogram hp.reference_notMem ho
  rcases run_of_fits hprogram cache opts slots ho
    (fun k op hop => Op.isIndifferent_of_isSteady (hsteady k op hop))
    (fun own hown => fits_ends hown hsteady hwatch) with
    ⟨e, haccepts, hpath, hanswer⟩ | ⟨hanswer, hdead⟩
  · exact .inl ⟨e, haccepts, (hpaths e).mp hpath, hanswer⟩
  · refine .inr ⟨hanswer, fun e haccepts hderives => ?_⟩
    obtain ⟨n, hpath⟩ := (hpaths e).mpr hderives
    exact hdead n e haccepts hpath

end Attempt

end Regexp
