import Mathlib.Data.List.Basic
import Regexp.Proofs.Cursor

/-!
# A walk over the bytes of a text follows the readers

A walk and a reader agree if they find the same value and stop at the same
place, or both fail for the same reason at the same place (`Cursor.Agrees`).  A
place that a reader knows as the rest of the text is an offset for the walk
(`Cursor.place`), and it is one at which a character starts or the text ends.

A walk that agrees with a reader has not gone wrong in a way of its own.  So the
faults need no statement of their own, and agreement is shown routine by
routine.  Three things make it true, one for each fault.  Every offset is the
place of a rest of the text.  Every round of a loop leaves a shorter rest, which
the results of readers say in their types.  And a routine is called further on
than its caller, or has a smaller number:  `Cursor.Routine.rank` numbers the
routines so that one calls those with smaller numbers before it has moved the
offset, and `Cursor.Clear` says of the routines that run that all of them allow
the next call.

Agreement is put together with one lemma for each way in which walks are: one
after the other (`Cursor.Agrees.bind`), by a condition that both look at
(`Cursor.Agrees.test`), in a routine (`Cursor.Agrees.enter`), under changed
options (`Cursor.Agrees.under`).  The proofs about routines then have the shape
of the routines.

## Main definitions

* `Cursor.place` — the offset of a rest of the text.
* `Cursor.State.facing` — the state in which what a reader knows is still to be
  read.
* `Cursor.Routine.rank`, `Cursor.Clear` — the numbers of routines, and where one
  may be called.
* `Cursor.Agrees` — a walk comes to what a reader comes to.

## Main statements

* `textFrom?_isSome_iff` — slices exist exactly from the valid positions of a
  text on.
* `Cursor.char_bind`, `Cursor.bump_bind`, `Cursor.moveTo_bind` — the steps of a
  walk.
* `Cursor.Agrees.bind`, `Cursor.Agrees.test`, `Cursor.Agrees.enter`,
  `Cursor.Agrees.under` — agreement is put together.
* `Cursor.proceed_inl` — a loop goes on after a round that has read something.
-/

namespace Regexp.Pattern

variable {s t pattern : List Char} {c : Char} {n : Nat}

/-! ### Slices -/

@[simp] theorem utf8Length_nil : utf8Length [] = 0 := rfl

@[simp] theorem utf8Length_cons : utf8Length (c :: s) = c.utf8Size + utf8Length s := rfl

@[simp] theorem utf8Length_append : utf8Length (s ++ t) = utf8Length s + utf8Length t := by
  induction s with
  | nil => simp
  | cons c s ih =>
    rw [List.cons_append, utf8Length_cons, utf8Length_cons, ih]
    omega

theorem utf8ByteSize_ofList : (String.ofList s).utf8ByteSize = utf8Length s := by
  induction s with
  | nil => rfl
  | cons c s ih =>
    rw [← List.singleton_append, String.ofList_append, String.utf8ByteSize_append, ih,
      utf8Length_append]
    congr 1
    exact String.utf8ByteSize_singleton

theorem textFrom?_zero : textFrom? s 0 = some s := by
  rw [textFrom?.eq_def]

theorem textFrom?_cons (hn : 0 < n) :
    textFrom? (c :: s) n = if c.utf8Size ≤ n then textFrom? s (n - c.utf8Size) else none := by
  cases n with
  | zero => omega
  | succ n => rfl

/-- A slice starts where a part of the text ends. -/
theorem textFrom?_eq_some_iff :
    textFrom? pattern n = some s ↔ ∃ pre, pattern = pre ++ s ∧ n = utf8Length pre := by
  constructor
  · intro h
    fun_induction textFrom? pattern n with
    | case1 t => exact ⟨[], by simpa using h, rfl⟩
    | case2 => cases h
    | case3 c t n hle ih =>
      obtain ⟨pre, rfl, hn⟩ := ih h
      exact ⟨c :: pre, rfl, by rw [utf8Length_cons]; omega⟩
    | case4 => cases h
  · rintro ⟨pre, rfl, rfl⟩
    induction pre with
    | nil => exact textFrom?_zero
    | cons c pre ih =>
      have hpos := c.utf8Size_pos
      rw [List.cons_append, utf8Length_cons, textFrom?_cons (by omega), if_pos (by omega),
        Nat.add_sub_cancel_left]
      exact ih

/-- So does the text up to there. -/
theorem textUpTo?_append {pre : List Char} : textUpTo? (pre ++ s) (utf8Length pre) = some pre := by
  induction pre with
  | nil =>
    rw [textUpTo?.eq_def]
    rfl
  | cons c pre ih =>
    have hpos := c.utf8Size_pos
    obtain ⟨n, hn⟩ : ∃ n, utf8Length (c :: pre) = n + 1 := ⟨_, (Nat.sub_add_cancel (by
      rw [utf8Length_cons]
      omega)).symm⟩
    rw [List.cons_append, hn, textUpTo?, ← hn, utf8Length_cons, if_pos (by omega),
      Nat.add_sub_cancel_left, ih]
    rfl

/-- **Slices exist exactly from the valid positions of a text on.**  So a walk
that ends without a fault has only looked at valid positions. -/
theorem textFrom?_isSome_iff {text : String} :
    (textFrom? text.toList n).isSome ↔ (String.Pos.Raw.mk n).IsValid text := by
  simp only [Option.isSome_iff_exists, textFrom?_eq_some_iff,
    String.Pos.Raw.isValid_iff_exists_take_toList, utf8ByteSize_ofList]
  constructor
  · rintro ⟨s, pre, htext, rfl⟩
    exact ⟨pre.length, by rw [htext, List.take_left]⟩
  · rintro ⟨k, hk⟩
    exact ⟨text.toList.drop k, text.toList.take k, (List.take_append_drop _ _).symm, hk⟩

namespace Cursor

/-! ### Places -/

/-- A text that is seen not to start with a character has another head. -/
theorem head?_ne (hne : ∀ t, s = c :: t → False) : s.head? ≠ some c :=
  fun h => (List.head?_eq_some_iff.mp h).elim hne

theorem tail_suffix (h : c :: t <:+ s) : t <:+ s := (List.suffix_cons c t).trans h

/-- The offset at which a rest of a text starts.  The reader of lists goes down
to a rest, and the walk by bytes stands at its place. -/
def place (pattern s : List Char) : Nat := utf8Length pattern - utf8Length s

theorem place_append {pre : List Char} : place (pre ++ s) s = utf8Length pre := by
  rw [place, utf8Length_append, Nat.add_sub_cancel]

theorem textFrom?_place (hs : s <:+ pattern) : textFrom? pattern (place pattern s) = some s := by
  obtain ⟨pre, rfl⟩ := hs
  rw [place_append]
  exact textFrom?_eq_some_iff.mpr ⟨pre, rfl, rfl⟩

theorem place_le_utf8Length : place pattern s ≤ utf8Length pattern := Nat.sub_le _ _

/-- A part of the text lies between the places of what is to be read before and
after it. -/
theorem place_add (pre : List Char) (hs : pre ++ s <:+ pattern) :
    place pattern (pre ++ s) + utf8Length pre = place pattern s := by
  obtain ⟨front, rfl⟩ := hs
  rw [place_append, ← List.append_assoc, place_append, utf8Length_append]

theorem place_cons (hs : c :: s <:+ pattern) :
    place pattern (c :: s) + c.utf8Size = place pattern s :=
  place_add [c] hs

theorem place_le (ht : t <:+ s) (hs : s <:+ pattern) : place pattern s ≤ place pattern t := by
  obtain ⟨pre, rfl⟩ := ht
  rw [← place_add pre hs]
  exact Nat.le_add_right _ _

theorem utf8Length_pos (hs : s ≠ []) : 0 < utf8Length s := by
  cases s with
  | nil => exact absurd rfl hs
  | cons c s =>
    have hpos := c.utf8Size_pos
    rw [utf8Length_cons]
    omega

theorem place_lt (ht : t <:+ s) (hlt : t.length < s.length) (hs : s <:+ pattern) :
    place pattern s < place pattern t := by
  obtain ⟨pre, rfl⟩ := ht
  have hpos : 0 < utf8Length pre := utf8Length_pos fun hnil => by simp [hnil] at hlt
  rw [← place_add pre hs]
  omega

/-! ### Steps -/

section

variable {α β : Type} {src : Source} {σ σ' : State} {ledger : Parser.Ledger} {h : Halt}
  {w : Walk α} {k : α → Walk β} {a : α}

theorem bind_ok (hw : w src σ = .ok (a, σ')) : (w >>= k) src σ = k a src σ' := by
  change w.andThen k src σ = _
  simp only [Walk.andThen, hw]

theorem bind_error (hw : w src σ = .error h) : (w >>= k) src σ = .error h := by
  change w.andThen k src σ = _
  simp only [Walk.andThen, hw]

instance : LawfulMonad Walk := by
  refine LawfulMonad.mk' Walk (fun w => ?_) (fun _ _ => rfl) (fun w f g => ?_)
  · funext src σ
    change (w >>= fun a => pure (id a)) src σ = w src σ
    cases hw : w src σ with
    | error => rw [bind_error hw]
    | ok => rw [bind_ok hw]; rfl
  · funext src σ
    cases hw : w src σ with
    | error => rw [bind_error hw, bind_error (bind_error hw)]
    | ok r =>
      rw [bind_ok hw]
      cases hf : f r.1 src r.2 with
      | error => rw [bind_error hf, bind_error ((bind_ok hw).trans hf)]
      | ok => rw [bind_ok hf, bind_ok ((bind_ok hw).trans hf)]

/-- The state in which a rest of the text is still to be read, with what is
known of the groups. -/
def State.facing (σ : State) (src : Source) (ledger : Parser.Ledger) (s : List Char) : State :=
  { σ with
    pos := place src.pattern s
    groups := ledger.groups
    references := ledger.references.reverse.map fun r => (r.1, place src.pattern r.2) }

@[simp] theorem facing_pos : (σ.facing src ledger s).pos = place src.pattern s := rfl

@[simp] theorem facing_opts : (σ.facing src ledger s).opts = σ.opts := rfl

@[simp] theorem facing_calls : (σ.facing src ledger s).calls = σ.calls := rfl

@[simp] theorem entered_opts {r : Routine} : (σ.entered r n).opts = σ.opts := rfl

@[simp] theorem entered_depth {r : Routine} : (σ.entered r n).depth = σ.depth := rfl

@[simp] theorem source_bind {k : Source → Walk β} : (source >>= k) src σ = k src src σ := rfl

@[simp] theorem here_bind {k : Nat → Walk β} : (here >>= k) src σ = k σ.pos src σ := rfl

@[simp] theorem options_bind {k : Options → Walk β} : (options >>= k) src σ = k σ.opts src σ := rfl

theorem ite_run {p : Prop} [Decidable p] {w' : Walk α} :
    (if p then w else w') src σ = if p then w src σ else w' src σ := by
  split <;> rfl

theorem moveTo_bind {k : Unit → Walk β} (ht : t <:+ src.pattern) :
    (moveTo (place src.pattern t) >>= k) src (σ.facing src ledger s) =
      k () src (σ.facing src ledger t) :=
  bind_ok (by rw [moveTo, textFrom?_place ht]; rfl)

theorem slice_bind {k : List Char → Walk β} (hs : s <:+ src.pattern) :
    (slice (place src.pattern s) >>= k) src σ = k s src σ :=
  bind_ok (by rw [slice, textFrom?_place hs])

theorem char_bind {k : Option Char → Walk β} (hs : s <:+ src.pattern) :
    (char >>= k) src (σ.facing src ledger s) = k s.head? src (σ.facing src ledger s) := by
  rw [char, bind_assoc, here_bind, bind_assoc, facing_pos, slice_bind hs, pure_bind]

theorem peekIs_bind {text : List Char} {k : Bool → Walk β} (hs : s <:+ src.pattern) :
    (peekIs text >>= k) src (σ.facing src ledger s) =
      k (text.isPrefixOf s) src (σ.facing src ledger s) := by
  rw [peekIs, bind_assoc, here_bind, bind_assoc, facing_pos, slice_bind hs, pure_bind]

theorem bump_bind {k : Unit → Walk β} (hs : c :: s <:+ src.pattern) :
    (bump >>= k) src (σ.facing src ledger (c :: s)) = k () src (σ.facing src ledger s) := by
  rw [bump, bind_assoc, char_bind hs]
  simp only [List.head?_cons]
  rw [bind_assoc, here_bind, facing_pos, place_cons hs, moveTo_bind (tail_suffix hs)]

theorem refer_bind {k : Unit → Walk β} {group : Nat} :
    (refer group (place src.pattern t) >>= k) src (σ.facing src ledger s) =
      k () src (σ.facing src (ledger.refer group t) s) := by
  refine bind_ok ?_
  rw [refer, State.facing, State.facing, Parser.Ledger.refer, List.reverse_cons, List.map_append]
  rfl

theorem openGroup_bind {k : Nat → Walk β} :
    (openGroup >>= k) src (σ.facing src ledger s) =
      k (ledger.groups + 1) src
        (σ.facing src { ledger with groups := ledger.groups + 1 } s) := rfl

theorem deepen_bind {k : Nat → Walk β} :
    (deepen >>= k) src (σ.facing src ledger s) =
      k (σ.depth + 1) src (σ.deeper.facing src ledger s) := rfl

end

/-! ### Calls -/

/-- A number for each routine that is larger than those of the routines it calls
before it has moved the offset.  It shows that no routine comes back to itself
at the same offset. -/
def Routine.rank : Routine → Nat
  | .group | .bracketClass => 0
  | .atom => 1
  | .branch => 2
  | .branches => 3
  | .alternation => 4
  | .look | .modifierGroup | .conditional => 5
  | .specialGroup => 6

/-- Whether all routines that run were entered before an offset, or at it with a
larger number. -/
def Clear (calls : List (Routine × Nat)) (r : Routine) (n : Nat) : Prop :=
  ∀ call ∈ calls, call.2 < n ∨ call.2 = n ∧ r.rank < call.1.rank

section

variable {calls : List (Routine × Nat)} {r r' : Routine} {m : Nat}

theorem Clear.nil : Clear [] r n := nofun

/-- A routine that may be entered does not run there. -/
theorem Clear.runsFrom_eq (h : Clear calls r n) : runsFrom calls r n = false := by
  rw [runsFrom, List.any_eq_false]
  intro call hcall hruns
  simp only [Bool.and_eq_true, decide_eq_true_eq] at hruns
  obtain ⟨rfl, hle⟩ := hruns
  rcases h call hcall with hlt | ⟨-, hrank⟩
  · omega
  · omega

theorem Clear.entered (h : Clear calls r n) (hle : n ≤ m) (hlt : n < m ∨ r'.rank < r.rank) :
    Clear ((r, n) :: calls) r' m := by
  intro call hcall
  rcases List.mem_cons.mp hcall with rfl | hcall
  · simp only
    omega
  · have := h call hcall
    omega

end

/-! ### Agreement -/

/-- Whether the places at which groups are referred to lie in a text. -/
class Within (pattern : List Char) (l : Parser.Ledger) : Prop where
  suffix : ∀ r ∈ l.references, r.2 <:+ pattern

theorem Within.refer {pattern : List Char} {l : Parser.Ledger} (hl : Within pattern l) {n : Nat}
    (hs : s <:+ pattern) : Within pattern (l.refer n s) :=
  ⟨List.forall_mem_cons.mpr ⟨hs, hl.suffix⟩⟩

/-- Whether a walk comes to what a reader comes to that starts at `s`.  What the
reader finds has a value, tells of the groups, and leaves a rest of the text, at
which the walk stops; a failure of the reader is one of the walk, at the place
of the rest. -/
inductive Agrees {α β : Type} (src : Source) (σ : State) (s : List Char) (value : α → β)
    (ledger : α → Parser.Ledger) (rest : α → List Char) :
    Except Parser.Failure α → Except Halt (β × State) → Prop
  | ok (a : α) (hrest : rest a <:+ s) [hledger : Within src.pattern (ledger a)] :
    Agrees src σ s value ledger rest (.ok a) (.ok (value a, σ.facing src (ledger a) (rest a)))
  | error (f : Parser.Failure) (hrest : f.rest <:+ src.pattern) :
    Agrees src σ s value ledger rest (.error f)
      (.error (.failure ⟨f.cause, place src.pattern f.rest⟩))

namespace Agrees

variable {α α' β β' γ : Type} {src : Source} {σ σ' σ₀ : State} {s' : List Char}
  {value : α → β} {ledger : α → Parser.Ledger} {rest : α → List Char}
  {value' : α' → β'} {ledger' : α' → Parser.Ledger} {rest' : α' → List Char}
  {x : Except Parser.Failure α} {w : Walk β} {l : Parser.Ledger} {cause : ParseError.Cause}

theorem failAt (ht : t <:+ src.pattern) :
    Agrees src σ s value ledger rest (Parser.fail cause t)
      ((Cursor.failAt (place src.pattern t) cause : Walk β) src σ₀) := .error _ ht

theorem failHere (ht : t <:+ src.pattern) :
    Agrees src σ s value ledger rest (Parser.fail cause t)
      ((Cursor.failHere cause : Walk β) src (σ'.facing src l t)) := .error _ ht

/-- A reader and a walk that are told apart by the same condition. -/
theorem test {p : Prop} {d d' : Decidable p} {x' : Except Parser.Failure α} {w' : Walk β}
    (hpos : p → Agrees src σ s value ledger rest x (w src σ₀))
    (hneg : ¬p → Agrees src σ s value ledger rest x' (w' src σ₀)) :
    Agrees src σ s value ledger rest (@ite _ p d x x') ((@ite _ p d' w w') src σ₀) := by
  by_cases hp : p
  · rw [if_pos hp, if_pos hp]
    exact hpos hp
  · rw [if_neg hp, if_neg hp]
    exact hneg hp

/-- So it is where the walk goes on behind the condition. -/
theorem test_bind {p : Prop} {d d' : Decidable p} {x' : Except Parser.Failure α} {w w' : Walk γ}
    {k : γ → Walk β}
    (hpos : p → Agrees src σ s value ledger rest x ((w >>= k) src σ₀))
    (hneg : ¬p → Agrees src σ s value ledger rest x' ((w' >>= k) src σ₀)) :
    Agrees src σ s value ledger rest (@ite _ p d x x')
      ((@ite (Walk γ) p d' w w' >>= k) src σ₀) := by
  by_cases hp : p
  · rw [if_pos hp, if_pos hp]
    exact hpos hp
  · rw [if_neg hp, if_neg hp]
    exact hneg hp

/-- What is found may tell of more groups than were known. -/
theorem found (a : α) (hrest : rest a <:+ s) (hledger : Within src.pattern (ledger a)) :
    Agrees src σ s value ledger rest (.ok a)
      (.ok (value a, σ.facing src (ledger a) (rest a))) := .ok a hrest

theorem mono {r : Except Halt (β × State)} (h : Agrees src σ t value ledger rest x r)
    (ht : t <:+ s) : Agrees src σ s value ledger rest x r := by
  cases h with
  | @ok a hrest hledger => exact .ok a (hrest.trans ht)
  | error f hrest => exact .error f hrest

/-- What a reader makes of what it found has another value, but the walk stops
there as well. -/
theorem map {f : α' → α} {x : Except Parser.Failure α'} {r : Except Halt (β × State)}
    (h : Agrees src σ s (fun a => value (f a)) (fun a => ledger (f a)) (fun a => rest (f a)) x r) :
    Agrees src σ s value ledger rest (x.map f) r := by
  cases h with
  | @ok a hrest hledger => exact .ok (f a) hrest
  | error f hrest => exact .error f hrest

theorem bind_return {f : α' → α} {x : Except Parser.Failure α'} {r : Except Halt (β × State)}
    (h : Agrees src σ s (fun a => value (f a)) (fun a => ledger (f a)) (fun a => rest (f a)) x r) :
    Agrees src σ s value ledger rest (x >>= fun a => .ok (f a)) r := by
  cases h with
  | @ok a hrest hledger => exact .ok (f a) hrest
  | error f hrest => exact .error f hrest

/-- So it is with what the walk makes of it. -/
theorem map_walk {g : β → γ} (h : Agrees src σ s value ledger rest x (w src σ₀)) :
    Agrees src σ s (fun a => g (value a)) ledger rest x ((w >>= fun b => pure (g b)) src σ₀) := by
  generalize hw : w src σ₀ = r at h
  cases h with
  | @ok a hrest hledger =>
    rw [bind_ok hw]
    exact .ok a hrest
  | error f hrest =>
    rw [bind_error hw]
    exact .error f hrest

/-- **Walks and readers agree one after the other**, where the first reader
tells of groups. -/
theorem bind_within {f : α → Except Parser.Failure α'} {k : β → Walk β'}
    (h : Agrees src σ s value ledger rest x (w src σ₀))
    (hnext : ∀ a, rest a <:+ s → Within src.pattern (ledger a) →
      Agrees src σ' s' value' ledger' rest' (f a)
        (k (value a) src (σ.facing src (ledger a) (rest a)))) :
    Agrees src σ' s' value' ledger' rest' (x >>= f) ((w >>= k) src σ₀) := by
  generalize hw : w src σ₀ = r at h
  cases h with
  | @ok a hrest hledger =>
    rw [bind_ok hw]
    exact hnext a hrest hledger
  | error f hrest =>
    rw [bind_error hw]
    exact .error f hrest

theorem bind {f : α → Except Parser.Failure α'} {k : β → Walk β'}
    (h : Agrees src σ s value ledger rest x (w src σ₀))
    (hnext : ∀ a, rest a <:+ s → Agrees src σ' s' value' ledger' rest' (f a)
      (k (value a) src (σ.facing src (ledger a) (rest a)))) :
    Agrees src σ' s' value' ledger' rest' (x >>= f) ((w >>= k) src σ₀) :=
  h.bind_within fun a hrest _ => hnext a hrest

/-- A reader that makes something of what it found, and a walk that goes on. -/
theorem bind_map {f : α → α'} {k : β → Walk β'}
    (h : Agrees src σ s value ledger rest x (w src σ₀))
    (hnext : ∀ a, rest a <:+ s → Agrees src σ' s' value' ledger' rest' (.ok (f a))
      (k (value a) src (σ.facing src (ledger a) (rest a)))) :
    Agrees src σ' s' value' ledger' rest' (x.map f) ((w >>= k) src σ₀) := by
  have hbind : x.map f = x >>= fun a => .ok (f a) := by cases x <;> rfl
  rw [hbind]
  exact h.bind hnext

/-- **A call of a routine that may be entered** does what the routine does. -/
theorem enter {r : Routine} (hclear : Clear σ.calls r (place src.pattern t))
    (h : Agrees src (σ.entered r (place src.pattern t)) s value ledger rest x
      (w src ((σ.entered r (place src.pattern t)).facing src l t))) :
    Agrees src σ s value ledger rest x (Cursor.enter r w src (σ.facing src l t)) := by
  rw [Cursor.enter, facing_calls, facing_pos, hclear.runsFrom_eq]
  change Agrees src σ s value ledger rest x
    ((w src ((σ.entered r (place src.pattern t)).facing src l t)).map fun result =>
      (result.1, { result.2 with calls := σ.calls }))
  generalize w src ((σ.entered r (place src.pattern t)).facing src l t) = result at h
  cases h with
  | @ok a hrest hledger => exact .ok a hrest
  | error f hrest => exact .error f hrest

/-- A walk under changed options does what it does there. -/
theorem under {f : Parser.Flags}
    (h : Agrees src (σ.under f) s value ledger rest x (w src ((σ.under f).facing src l t))) :
    Agrees src σ s value ledger rest x (Cursor.under f w src (σ.facing src l t)) := by
  change Agrees src σ s value ledger rest x
    ((w src ((σ.under f).facing src l t)).map fun result =>
      (result.1, { result.2 with opts := σ.opts }))
  generalize w src ((σ.under f).facing src l t) = result at h
  cases h with
  | @ok a hrest hledger => exact .ok a hrest
  | error f hrest => exact .error f hrest

end Agrees

/-! ### Loops -/

section

variable {α β : Type} {src : Source} {σ σ' : State} {l l' : Parser.Ledger} {a : α} {b b' : β}
  {round : β → Walk (β ⊕ α)}

/-- What a loop does after a round that started at an offset. -/
def proceed (round : β → Walk (β ⊕ α)) (start : Nat) : β ⊕ α → Walk α
  | .inr a => pure a
  | .inl next => fun src σ =>
    if start < σ.pos ∧ σ.pos ≤ utf8Length src.pattern then loop round next src σ
    else .error .stalled

theorem loop_eq_bind : loop round b src σ = (round b >>= proceed round σ.pos) src σ := by
  rw [loop, rounds]
  cases hround : round b src σ with
  | error h => rw [bind_error hround]
  | ok r =>
    rw [bind_ok hround]
    obtain ⟨next | a, σ'⟩ := r <;> rfl

/-- After a round that has read something a loop goes on. -/
theorem proceed_inl (hs : s <:+ src.pattern) (ht : t <:+ s) (hlt : t.length < s.length) :
    proceed round (place src.pattern s) (.inl b) src (σ.facing src l t) =
      loop round b src (σ.facing src l t) :=
  if_pos ⟨place_lt ht hlt hs, place_le_utf8Length⟩

theorem loop_next (hs : s <:+ src.pattern) (ht : t <:+ s) (hlt : t.length < s.length)
    (hround : round b src (σ.facing src l s) = .ok (.inl b', σ.facing src l' t)) :
    loop round b src (σ.facing src l s) = loop round b' src (σ.facing src l' t) := by
  rw [loop_eq_bind, bind_ok hround, facing_pos, proceed_inl hs ht hlt]

theorem loop_done (hround : round b src σ = .ok (.inr a, σ')) :
    loop round b src σ = .ok (a, σ') := by
  rw [loop_eq_bind, bind_ok hround]
  rfl

theorem loop_error {h : Halt} (hround : round b src σ = .error h) :
    loop round b src σ = .error h := by
  rw [loop_eq_bind, bind_error hround]

end

end Cursor

end Regexp.Pattern
