import Regexp.Proofs.Cursor.Groups

/-!
# Reading by bytes is total

A walk over the bytes of a whole text comes to the pattern that the readers
find, or to their failure.  So it does not go wrong in a way of its own: it
never leaves the text or stops inside of a character, no round of a loop stands
still, and no routine is entered again before the offset has moved on.

All of this is contained in one equation, `Cursor.whole_apply`.  The walk of a
whole text begins in a state in which nothing runs, with as many levels as the
text has characters, which is enough since each level starts with a character of
its own.  `Cursor.parse_total` says it for `Cursor.parse`, and adds where an
error is reported: at a valid position of the text, so that the text can be cut
there.

## Main statements

* `Cursor.whole_apply` — the walk over a whole text does what the reader of a
  whole text does.
* `Cursor.parse_total` — reading by bytes ends with a tree or an error, the one
  that `parse` ends with, and an error lies at a valid position of the text.
-/

namespace Regexp.Pattern

namespace Cursor

/-! ### The whole text -/

variable {src : Source} {σ : State} {l : Parser.Ledger} {s : List Char}

theorem isEof_bind {β : Type} {k : Bool → Walk β} (hs : s <:+ src.pattern) :
    (isEof >>= k) src (σ.facing src l s) = k s.isEmpty src (σ.facing src l s) := by
  refine bind_ok ?_
  rw [isEof, source_bind, here_bind, facing_pos]
  change Except.ok _ = Except.ok _
  congr 2
  cases s with
  | nil => exact decide_eq_true (Nat.le_refl _)
  | cons c s =>
    have hlt : place src.pattern (c :: s) < place src.pattern [] :=
      place_lt List.nil_suffix (Nat.succ_pos _) hs
    exact decide_eq_false (Nat.not_le_of_lt (Nat.lt_of_lt_of_le hlt place_le_utf8Length))

theorem undefined?_bind {β : Type} {k : Option (Nat × Nat) → Walk β} :
    (undefined? >>= k) src (σ.facing src l s) =
      k (l.undefined?.map fun r => (r.1, place src.pattern r.2)) src (σ.facing src l s) := by
  refine bind_ok ?_
  rw [undefined?, Parser.Ledger.undefined?, State.facing, List.find?_map]
  rfl

/-- **A walk over a whole text** finds what the reader of a whole text finds,
from the start of the text and with no group opened. -/
theorem whole_apply (opts : Options) (src : Source) :
    (∃ p σ, whole src (.initial opts) = .ok (p, σ) ∧
      Parser.whole opts src.nestLimit src.pattern = .ok p) ∨
    (∃ f : Parser.Failure, f.rest <:+ src.pattern ∧
      whole src (.initial opts) = .error (.failure ⟨f.cause, place src.pattern f.rest⟩) ∧
      Parser.whole opts src.nestLimit src.pattern = .error f) := by
  have hinitial : State.initial opts = (State.initial opts).facing src {} src.pattern := by
    rw [State.facing, place, Nat.sub_self]
    rfl
  have hempty : Within src.pattern {} := ⟨List.forall_mem_nil _⟩
  have hpoised : Poised src src.pattern.length 0 .alternation (.initial opts) src.pattern :=
    ⟨List.suffix_refl _, Nat.le_refl _, rfl, .nil⟩
  have h : Agrees src (.initial opts) src.pattern (·.value.1) (·.value.2) (·.rest)
      (Parser.alternation (Parser.groupWithin src.nestLimit src.nestLimit) opts {} src.pattern)
      (alternation (groupWithin src.pattern.length) src
        ((State.initial opts).facing src {} src.pattern)) :=
    alternation_agrees (groupWithin_agrees (Nat.zero_add _)) hpoised
  rw [whole, source_bind, hinitial, Parser.whole.eq_def]
  generalize hx : Parser.alternation _ _ _ _ = x at h ⊢
  generalize hr : alternation _ _ _ = r at h
  cases h with
  | error f hf => exact .inr ⟨f, hf, bind_error hr, rfl⟩
  | @ok a hrest hl =>
    rw [bind_ok hr, isEof_bind hrest]
    by_cases hend : a.rest.isEmpty = true
    · cases hmissing : a.value.2.undefined? with
      | none =>
        refine .inl ⟨a.value.1, (State.initial opts).facing src a.value.2 a.rest, ?_, ?_⟩
        · rw [if_pos hend, undefined?_bind, hmissing]
          rfl
        · exact (if_pos hend).trans (by rw [hmissing])
      | some r =>
        have hmem := List.mem_reverse.mp (List.mem_of_find?_eq_some hmissing)
        refine .inr ⟨⟨.groupUndefined r.1, r.2⟩, hl.suffix r hmem, ?_, ?_⟩
        · rw [if_pos hend, undefined?_bind, hmissing]
          rfl
        · exact (if_pos hend).trans (by rw [hmissing]; rfl)
    · refine .inr ⟨⟨.groupUnopened, a.rest⟩, hrest, ?_, ?_⟩
      · rw [if_neg hend]
        rfl
      · exact if_neg hend

/-- **Reading a pattern by bytes ends with a tree or an error.** The walk does
not leave the text, does not stand still, and has levels enough; it finds what
`parse` finds.  An error is reported at a valid position of the text. -/
theorem parse_total (opts : Options) (text : String) (nestLimit : Nat) :
    (∃ p, Cursor.parse opts text nestLimit = .ok p ∧ Pattern.parse opts text nestLimit = .ok p) ∨
    (∃ e : ParseError, Cursor.parse opts text nestLimit = .error (.failure e) ∧
      Pattern.parse opts text nestLimit = .error e ∧
      (String.Pos.Raw.mk e.offset).IsValid text ∧ e.offset ≤ text.utf8ByteSize) := by
  rw [Cursor.parse, Pattern.parse.eq_def]
  rcases whole_apply opts ⟨text.toList, nestLimit⟩ with
    ⟨p, σ, hwalk, hreader⟩ | ⟨f, hf, hwalk, hreader⟩
  · rw [hwalk]
    simp only at hreader
    rw [hreader]
    exact .inl ⟨p, rfl, rfl⟩
  · have hvalid : (String.Pos.Raw.mk (place text.toList f.rest)).IsValid text :=
      textFrom?_isSome_iff.mp (Option.isSome_of_eq_some (textFrom?_place hf))
    rw [hwalk]
    simp only at hreader
    rw [hreader]
    exact .inr ⟨⟨f.cause, place text.toList f.rest⟩, rfl, rfl, hvalid, hvalid.le_utf8ByteSize⟩

end Cursor

end Regexp.Pattern
