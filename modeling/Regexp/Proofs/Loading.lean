import Mathlib.Data.List.Basic
import Regexp.Suite.Collection

/-!
# Loading files of tests

A file that is not loaded adds no test, but the names of its tests in front of
the one at fault stay taken.  So a collection takes no harm from such a file if
and only if there is no test in front of the one at fault.

Whether a collection has taken harm is a matter of what can be seen of it.  The
names are not part of what it shows; they come to light when a later file has a
test of the same name.  `Collection.Alike` makes this precise: no sequence of
files tells the two collections apart, by the tests they end with or by what is
said of each file.  `Collection.alike_iff_of_failure` decides it for the
collection before and after a file that was not loaded.

One direction is a counterexample for each such file.  Its first test, alone in
a file, would be loaded before and is refused as a duplicate after
(`Collection.accepted_eq_nil_of_alike`).  The other direction is an invariant.
Two collections that take the same names, among those that may come, treat a
file in the same way and agree on these names afterwards
(`Collection.Agree.loadFile`), so that they do for any number of files.  The
restriction to names that pass some test is what allows the same lemma to say
that files with other names cannot see the difference.

How the text of a file is decoded plays no part.  A file that cannot be decoded
has no tests, and leaves no names behind.

## Main definitions

* `Collection.loadAll` — files that are loaded one after the other.
* `Collection.Alike` — collections that no files tell apart.
* `Collection.accepted` — the tests in front of the first one that is refused.

## Main statements

* `Collection.mem_register` — the names that are taken after a file.
* `Collection.Agree.loadAll` — collections that agree on names load files with
  these names alike.
* `Collection.alike_iff_of_failure` — what a file that is not loaded leaves
  behind.
-/

namespace Regexp

variable {ε : Type} {seen seen' : List String} {t : SuiteTest} {ts : List SuiteTest}
  {P : String → Prop} {c c' : Collection} {f : SuiteFile ε} {fs : List (SuiteFile ε)}

/-! ### Single tests -/

/-- Why a test is refused after others, if it is: it has a flaw of its own, or
its full name is taken. -/
def SuiteTest.refusal? (seen : List String) (t : SuiteTest) : Option LoadError :=
  match t.flaw? with
  | some flaw => some (.invalid t.fullName flaw)
  | none => if seen.contains t.fullName then some (.duplicate t.fullName) else none

theorem SuiteTest.refusal?_congr (h : t.fullName ∈ seen ↔ t.fullName ∈ seen') :
    t.refusal? seen = t.refusal? seen' := by
  simp only [refusal?, List.contains_iff_mem, h]

/-- A test whose name is taken is refused. -/
theorem SuiteTest.refusal?_of_mem (h : t.fullName ∈ seen) : t.refusal? seen ≠ none := by
  rw [refusal?]
  split
  · nofun
  · simp [h]

/-- The tests of a file with their full names; there are none if it cannot be
decoded. -/
def SuiteFile.tests (f : SuiteFile ε) : List SuiteTest :=
  match f.specs with
  | .error _ => []
  | .ok specs => Collection.named f.group 1 specs

namespace Collection

/-! ### The tests of a file -/

theorem register_cons (seen : List String) (t : SuiteTest) (ts : List SuiteTest) :
    register seen (t :: ts) =
      match t.refusal? seen with
      | some e => (seen, some e)
      | none => register (t.fullName :: seen) ts := by
  rw [register, SuiteTest.refusal?]
  cases t.flaw? with
  | some flaw => rfl
  | none =>
    cases hmem : seen.contains t.fullName <;> simp

/-- The tests in front of the first one that is refused.  Their names are taken
although the file is not loaded. -/
def accepted (seen : List String) : List SuiteTest → List SuiteTest
  | [] => []
  | t :: ts => if (t.refusal? seen).isSome then [] else t :: accepted (t.fullName :: seen) ts

theorem accepted_cons_of_none (h : t.refusal? seen = none) :
    accepted seen (t :: ts) = t :: accepted (t.fullName :: seen) ts := by
  simp [accepted, h]

theorem accepted_cons_of_some {e : LoadError} (h : t.refusal? seen = some e) :
    accepted seen (t :: ts) = [] := by
  simp [accepted, h]

/-- The names that are taken after tests are those that were taken before and
those of the tests in front of the first one that is refused. -/
theorem mem_register {n : String} :
    n ∈ (register seen ts).1 ↔ n ∈ seen ∨ n ∈ (accepted seen ts).map (·.fullName) := by
  induction ts generalizing seen with
  | nil => simp [register, accepted]
  | cons t ts ih =>
    rw [register_cons]
    cases h : t.refusal? seen with
    | some e => simp [accepted_cons_of_some h]
    | none =>
      rw [accepted_cons_of_none h, List.map_cons, List.mem_cons]
      simp only [ih, List.mem_cons]
      grind

/-- Whether the same names that pass a test are taken.  The test is there so
that names which no later file comes with can be left out of account. -/
def SameNames (P : String → Prop) (seen seen' : List String) : Prop :=
  ∀ n, P n → (n ∈ seen ↔ n ∈ seen')

/-- What becomes of tests depends on their own names only. -/
theorem register_congr (hts : ∀ t ∈ ts, P t.fullName) (h : SameNames P seen seen') :
    (register seen ts).2 = (register seen' ts).2 ∧
      SameNames P (register seen ts).1 (register seen' ts).1 := by
  induction ts generalizing seen seen' with
  | nil => exact ⟨rfl, h⟩
  | cons t ts ih =>
    have ht := hts t List.mem_cons_self
    rw [register_cons, register_cons, SuiteTest.refusal?_congr (h _ ht)]
    cases t.refusal? seen' with
    | some e => exact ⟨rfl, h⟩
    | none =>
      refine ih (fun t ht => hts t (List.mem_cons_of_mem _ ht)) fun n hn => ?_
      rw [List.mem_cons, List.mem_cons, h n hn]

/-! ### Files -/

/-- A list of tests is added as a whole or not at all, but the names that were
seen are kept. -/
theorem load_eq (c : Collection) (group : String) (specs : List TestSpec) :
    c.load group specs =
      let tests := named group 1 specs
      let (seen, e) := register c.seen tests
      (⟨if e.isSome then c.tests else c.tests ++ tests, seen⟩, e) := by
  rw [load]
  cases hregister : register c.seen (named group 1 specs) with
  | mk seen e => cases e <;> simp only [hregister] <;> rfl

theorem seen_loadFile (c : Collection) (f : SuiteFile ε) :
    (c.loadFile f).1.seen = (register c.seen f.tests).1 := by
  rw [loadFile, SuiteFile.tests]
  cases f.specs with
  | error reason => rfl
  | ok specs => simp only [load_eq]

/-- Why a file is not loaded depends on the names that are taken only. -/
theorem failure_loadFile (c : Collection) (f : SuiteFile ε) :
    (c.loadFile f).2 =
      match f.specs with
      | .error reason => some (.undecodable reason)
      | .ok _ => (register c.seen f.tests).2.map .refused := by
  rw [loadFile, SuiteFile.tests]
  cases f.specs with
  | error reason => rfl
  | ok specs => simp only [load_eq]

/-- A file adds all of its tests, or none if it is not loaded. -/
theorem tests_loadFile (c : Collection) (f : SuiteFile ε) :
    (c.loadFile f).1.tests =
      if (c.loadFile f).2.isSome then c.tests else c.tests ++ f.tests := by
  rw [loadFile, SuiteFile.tests]
  cases f.specs with
  | error reason => rfl
  | ok specs => simp only [load_eq, Option.isSome_map]

/-- The collection after files that are loaded one after the other, and for each
of them the reason if it is not loaded. -/
def loadAll (c : Collection) : List (SuiteFile ε) → List (Option (LoadFailure ε)) × Collection
  | [] => ([], c)
  | f :: fs =>
    let (c, failure) := c.loadFile f
    let (failures, c) := c.loadAll fs
    (failure :: failures, c)

theorem loadAll_cons (c : Collection) (f : SuiteFile ε) (fs : List (SuiteFile ε)) :
    c.loadAll (f :: fs) =
      ((c.loadFile f).2 :: ((c.loadFile f).1.loadAll fs).1, ((c.loadFile f).1.loadAll fs).2) := rfl

/-- Whether collections have the same tests, and among the names that pass a
test the same ones are taken. -/
structure Agree (P : String → Prop) (c c' : Collection) : Prop where
  tests_eq : c.tests = c'.tests
  names : SameNames P c.seen c'.seen

/-- A file whose names pass the test is loaded alike. -/
theorem Agree.loadFile (h : Agree P c c') (hf : ∀ t ∈ f.tests, P t.fullName) :
    (c.loadFile f).2 = (c'.loadFile f).2 ∧ Agree P (c.loadFile f).1 (c'.loadFile f).1 := by
  obtain ⟨hrefusal, hnames⟩ := register_congr hf h.names
  have hfailure : (c.loadFile f).2 = (c'.loadFile f).2 := by
    rw [failure_loadFile, failure_loadFile, hrefusal]
  refine ⟨hfailure, ?_, ?_⟩
  · rw [tests_loadFile, tests_loadFile, hfailure, h.tests_eq]
  · rwa [seen_loadFile, seen_loadFile]

/-- **Collections that agree on the names of files load them alike**, and have
the same tests afterwards. -/
theorem Agree.loadAll (h : Agree P c c') (hfs : ∀ f ∈ fs, ∀ t ∈ f.tests, P t.fullName) :
    (c.loadAll fs).1 = (c'.loadAll fs).1 ∧ Agree P (c.loadAll fs).2 (c'.loadAll fs).2 := by
  induction fs generalizing c c' with
  | nil => exact ⟨rfl, h⟩
  | cons f fs ih =>
    obtain ⟨hfailure, hagree⟩ := h.loadFile (hfs f List.mem_cons_self)
    obtain ⟨hfailures, hrest⟩ := ih hagree fun f hf => hfs f (List.mem_cons_of_mem _ hf)
    rw [loadAll_cons, loadAll_cons]
    exact ⟨by rw [hfailure, hfailures], hrest⟩

/-- Whether no files tell two collections apart: the same ones are loaded, the
others fail for the same reasons, and the tests are the same before and
afterwards. -/
def Alike (ε : Type) (c c' : Collection) : Prop :=
  ∀ fs : List (SuiteFile ε),
    (c.loadAll fs).1 = (c'.loadAll fs).1 ∧ (c.loadAll fs).2.tests = (c'.loadAll fs).2.tests

theorem Agree.alike (h : Agree (fun _ => True) c c') : Alike ε c c' := by
  intro fs
  have hnames : ∀ f ∈ fs, ∀ t ∈ f.tests, True := fun _ _ _ _ => trivial
  obtain ⟨hfailures, hagree⟩ := h.loadAll hnames
  exact ⟨hfailures, hagree.tests_eq⟩

/-! ### Files that are not loaded -/

/-- A file that is not loaded leaves behind the names of its tests in front of
the one at fault, and nothing else. -/
theorem agree_of_failure (h : (c.loadFile f).2.isSome = true) :
    Agree (· ∉ (accepted c.seen f.tests).map (·.fullName)) (c.loadFile f).1 c where
  tests_eq := by rw [tests_loadFile, if_pos h]
  names n hn := by rw [seen_loadFile, mem_register, or_iff_left hn]

/-- The first test of a file, alone in a file, is loaded unless it is refused. -/
theorem loadFile_alone {s : TestSpec} :
    (c.loadFile (⟨f.group, .ok [s]⟩ : SuiteFile ε)).2 =
      ((s.inGroup f.group 1).refusal? c.seen).map .refused := by
  rw [failure_loadFile]
  simp only [SuiteFile.tests, named, register_cons]
  cases (s.inGroup f.group 1).refusal? c.seen <;> rfl

/-- The names that a file leaves behind can be told by loading its first test
alone. -/
theorem accepted_eq_nil_of_alike (h : Alike ε (c.loadFile f).1 c) :
    accepted c.seen f.tests = [] := by
  cases hspecs : f.specs with
  | error reason => simp [SuiteFile.tests, hspecs, accepted]
  | ok specs =>
    cases specs with
    | nil => simp [SuiteFile.tests, hspecs, named, accepted]
    | cons s specs =>
      have hrest : ∃ rest, f.tests = s.inGroup f.group 1 :: rest := by
        simp only [SuiteFile.tests, hspecs, named]
        exact ⟨_, rfl⟩
      obtain ⟨rest, hrest⟩ := hrest
      have halone := (h [⟨f.group, .ok [s]⟩]).1
      rw [loadAll_cons, loadAll_cons, loadFile_alone, loadFile_alone] at halone
      cases hfirst : (s.inGroup f.group 1).refusal? c.seen with
      | some e => rw [hrest, accepted_cons_of_some hfirst]
      | none =>
        -- Its name is taken by the file itself, so that it is refused when it comes again.
        have htaken : (s.inGroup f.group 1).fullName ∈ (c.loadFile f).1.seen := by
          rw [seen_loadFile, mem_register, hrest, accepted_cons_of_none hfirst]
          simp
        obtain ⟨e, he⟩ := Option.ne_none_iff_exists'.mp (SuiteTest.refusal?_of_mem htaken)
        simp [hfirst, he] at halone

/-- **What a file that is not loaded leaves behind.**  The tests of the
collection stay as they are.  No later files tell the collection from what it
was if and only if the file has no test in front of the one at fault; and in any
case they are loaded alike as long as they do not come with a name of such a
test. -/
theorem alike_iff_of_failure (c : Collection) (f : SuiteFile ε)
    (h : (c.loadFile f).2.isSome = true) :
    (c.loadFile f).1.tests = c.tests ∧
      (Alike ε (c.loadFile f).1 c ↔ accepted c.seen f.tests = []) ∧
      ∀ fs : List (SuiteFile ε),
        (∀ g ∈ fs, ∀ t ∈ g.tests, t.fullName ∉ (accepted c.seen f.tests).map (·.fullName)) →
          ((c.loadFile f).1.loadAll fs).1 = (c.loadAll fs).1 ∧
            ((c.loadFile f).1.loadAll fs).2.tests = (c.loadAll fs).2.tests := by
  have hagree := agree_of_failure h
  refine ⟨hagree.tests_eq, ⟨accepted_eq_nil_of_alike, fun hnil => ?_⟩, fun fs hfs => ?_⟩
  · refine Agree.alike ⟨hagree.tests_eq, fun n _ => hagree.names n ?_⟩
    simp [hnil]
  · obtain ⟨hfailures, hrest⟩ := hagree.loadAll hfs
    exact ⟨hfailures, hrest.tests_eq⟩

/-- A file whose second test has the name of an earlier one: its first test is
in front of the one at fault, and so the file can be told from none.  A file
with another name cannot tell it. -/
theorem alike_iff_of_failure_later :
    let spec (name : String) : TestSpec :=
      { name := name, pattern := "a", input := "a", isMatch := some true }
    let c := (empty.loadFile (⟨"g", .ok [spec "x"]⟩ : SuiteFile String)).1
    let f : SuiteFile String := ⟨"g", .ok [spec "y", spec "x"]⟩
    let other : SuiteFile String := ⟨"g", .ok [spec "z"]⟩
    (c.loadFile f).2 = some (.refused (.duplicate "g/x")) ∧
      (accepted c.seen f.tests).map (·.fullName) = ["g/y"] ∧
      (c.loadFile f).1.tests = c.tests ∧ ¬ Alike String (c.loadFile f).1 c ∧
      ((c.loadFile f).1.loadAll [other]).1 = (c.loadAll [other]).1 ∧
      ((c.loadFile f).1.loadAll [other]).2.tests = (c.loadAll [other]).2.tests := by
  intro spec c f other
  have hfailure : (c.loadFile f).2 = some (.refused (.duplicate "g/x")) := rfl
  have hfailed : (c.loadFile f).2.isSome = true := by rw [hfailure]; rfl
  have hnames : (accepted c.seen f.tests).map (·.fullName) = ["g/y"] := rfl
  have hother : other.tests.map (·.fullName) = ["g/z"] := rfl
  obtain ⟨htests, halike, hloads⟩ := alike_iff_of_failure c f hfailed
  refine ⟨hfailure, hnames, htests, fun h => ?_, hloads [other] ?_⟩
  · rw [halike.mp h] at hnames
    cases hnames
  · rintro g hg t ht hmem
    obtain rfl := List.mem_singleton.mp hg
    have hz : t.fullName ∈ ["g/z"] := hother ▸ List.mem_map_of_mem ht
    rw [hnames, List.mem_singleton.mp hz] at hmem
    revert hmem
    decide

/-- A file that is refused because of its second test adds nothing to the empty
collection; but when its first test comes again, alone, that is refused as a
duplicate, and without the file it is not. -/
theorem not_alike_of_failure_second :
    let good : TestSpec := { name := "x", pattern := "a", input := "a", isMatch := some true }
    let bad : TestSpec := { name := "y", pattern := "b", input := "b" }
    let f : SuiteFile String := ⟨"g", .ok [good, bad]⟩
    let again : SuiteFile String := ⟨"g", .ok [good]⟩
    let c := (empty.loadFile f).1
    (empty.loadFile f).2 = some (.refused (.invalid "g/y" .nothingExpected)) ∧ c.tests = [] ∧
      (c.loadAll [again]).1 = [some (.refused (.duplicate "g/x"))] ∧
        (empty.loadAll [again]).1 = [none] ∧ ¬ Alike String c empty := by
  intro good bad f again c
  have hagain : (c.loadAll [again]).1 = [some (.refused (.duplicate "g/x"))] := rfl
  have hwithout : (empty.loadAll [again]).1 = [none] := rfl
  refine ⟨rfl, rfl, hagain, hwithout, fun halike => ?_⟩
  have hsame := (halike [again]).1
  rw [hagain, hwithout] at hsame
  cases hsame

end Collection

end Regexp
