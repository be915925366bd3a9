import Regexp.Proofs.Cursor.Readers

/-!
# Reading classes by bytes

Classes nest, so a walk for a class is given the walk for the classes inside of
it.  It is good for texts up to a length, and each class inside of another one
is shorter than that one.

`Cursor.ReadsClasses` is the hypothesis about the walk inside, and
`Cursor.bracketClassOf_agrees` the step: if the walk inside reads classes of
texts up to a length, then one more level reads them in texts that are longer by
one.  At the beginning the walk is given as many levels as the pattern has
characters, so they do not run out (`Cursor.bracketClassWithin_agrees`).  The
items of a class are read in a loop whose rounds are of different kinds
(`Cursor.loop_classRound`); one of them is the class inside, which ends the
loop.

Where a reader looks at the characters that come next, a walk cuts the text at
an offset that it has computed:  for the colon and the bracket that end a named
class, and for the hyphen of a range.  All of these take up one byte, so that
the offset behind them is the place of the rest.

## Main definitions

* `Cursor.ReadsClasses` — whether a walk reads the classes of texts up to a
  length.

## Main statements

* `Cursor.startsRange_bind`, `Cursor.posixClass_agrees` — where a walk looks
  ahead by bytes.
* `Cursor.loop_classRound` — the items of a class.
* `Cursor.bracketClassOf_agrees`, `Cursor.bracketClassWithin_agrees` — one more
  level of classes, and all levels.
* `Cursor.bracketClass_agrees`, `Cursor.classOperation_agrees` — classes, with
  operators or without.
-/

namespace Regexp.Pattern

namespace Cursor

variable {src : Source} {σ : State} {l : Parser.Ledger} {s t : List Char}
  [hl : Within src.pattern l]

/-! ### Items of classes -/

theorem classItem_agrees (hs : s <:+ src.pattern) :
    Agrees src σ s (·.value) (fun _ => l) (·.rest) (Parser.classItem σ.opts s)
      (classItem src (σ.facing src l s)) := by
  rw [classItem, here_bind, facing_pos, char_bind hs, Parser.classItem.eq_def]
  split
  · exact .failHere hs
  · rename_i t
    have ht : t <:+ '\\' :: t := List.suffix_cons _ _
    simp only [List.head?_cons]
    rw [if_pos trivial, bump_bind hs, char_bind (ht.trans hs)]
    cases t with
    | nil => exact .failAt hs
    | cons c t =>
      simp only [List.head?_cons, List.isEmpty_cons, Bool.false_eq_true, if_false]
      refine (classEscape_agrees (ht.trans hs)).bind fun set hset => ?_
      cases set with
      | some set => exact .ok _ (hset.trans ht)
      | none => exact (charEscape_agrees hs (ht.trans hs)).bind fun r hr => .ok _ (hr.trans ht)
  · rename_i c t hne
    simp only [List.head?_cons]
    rw [if_neg hne, bump_bind hs]
    exact .ok _ (List.suffix_cons _ _)

theorem isPrefixOf_pair {a b c : Char} :
    [a, b].isPrefixOf (c :: s) = (c = a && s.head? = some b : Bool) := by
  rw [Bool.eq_iff_iff, isPrefixOf_two, Bool.and_eq_true, decide_eq_true_eq, decide_eq_true_eq,
    List.head?_eq_some_iff]
  simp

omit hl in
theorem startsRange_bind {β : Type} {k : Bool → Walk β} (hs : s <:+ src.pattern) :
    (startsRange >>= k) src (σ.facing src l s) =
      k (Parser.startsRange s) src (σ.facing src l s) := by
  refine bind_ok ?_
  rw [startsRange, char_bind hs, peekIs_bind hs, peekIs_bind hs, here_bind, source_bind, facing_pos]
  change Except.ok _ = Except.ok _
  congr 2
  cases s with
  | nil => rfl
  | cons c t =>
    obtain rfl | hc := eq_or_ne c '-'
    · have hplace : place src.pattern ('-' :: t) + 1 = place src.pattern t := place_cons hs
      rw [hplace]
      cases t with
      | nil => simp [Parser.startsRange, place]
      | cons d t =>
        have hlt : place src.pattern (d :: t) < utf8Length src.pattern :=
          Nat.lt_of_lt_of_le (place_lt List.nil_suffix (Nat.succ_pos _) (tail_suffix hs))
            place_le_utf8Length
        rw [isPrefixOf_pair, isPrefixOf_pair]
        simp [Parser.startsRange, hlt]
    · simp [Parser.startsRange, hc]

theorem classRange_agrees (hs : s <:+ src.pattern) :
    Agrees src σ s (·.value) (fun _ => l) (·.rest) (Parser.classRange σ.opts s)
      (classRange src (σ.facing src l s)) := by
  rw [classRange, here_bind, facing_pos, Parser.classRange.eq_def]
  refine (classItem_agrees hs).bind fun ⟨item, t, hlt⟩ ht => ?_
  cases item with
  | set set => exact .ok _ ht
  | char lo =>
    simp only
    rw [startsRange_bind (ht.trans hs)]
    refine .test (fun hrange => ?_) fun _ => ?_
    · cases t with
      | nil => cases hrange
      | cons hyphen t =>
        rw [bump_bind (ht.trans hs)]
        refine (classItem_agrees (tail_suffix (ht.trans hs))).bind fun ⟨item, t', hlt'⟩ ht' => ?_
        cases item with
        | set set => exact .failAt hs
        | char hi =>
          simp only
          exact .test (fun _ => .failAt hs) fun _ => .ok _ (ht'.trans (tail_suffix ht))
    · exact .ok _ ht

/-! ### Bracketed classes -/

/-- A text is split where two characters are found in it. -/
theorem findText?_splitAfter (a b : Char) (s : List Char) :
    match Parser.splitAfter a b s with
    | none => findText? [a, b] s = none
    | some r =>
      s = r.value ++ a :: b :: r.rest ∧ findText? [a, b] s = some (utf8Length r.value) := by
  fun_induction Parser.splitAfter a b s with
  | case1 => rfl
  | case2 c =>
    rw [findText?, isPrefixOf_pair]
    simp [findText?]
  | case3 c d rest h =>
    rw [findText?, isPrefixOf_pair, if_pos (by simpa using h)]
    simp only [Bool.and_eq_true, decide_eq_true_eq] at h
    exact ⟨by rw [← h.1, ← h.2]; rfl, rfl⟩
  | case4 c d rest h ih =>
    rw [findText?, isPrefixOf_pair, if_neg (by simpa using h)]
    cases hsplit : Parser.splitAfter a b (d :: rest) with
    | none =>
      rw [hsplit] at ih
      simp only [Option.map_none]
      rw [ih]
      rfl
    | some r =>
      rw [hsplit] at ih
      exact ⟨congrArg (c :: ·) ih.1, ih.2 ▸ rfl⟩

/-- The name of a class, negated or not, is looked up, and the offset moves
behind it. -/
theorem posixSet_agrees {start : List Char} (hstart : start <:+ src.pattern)
    (r : Parser.Consumed (List Char) s) (hr : r.rest <:+ s) (hrest : r.rest <:+ src.pattern)
    (signed : Bool × List Char) :
    Agrees src σ s (·.value) (fun _ => l) (·.rest)
      (match Parser.posixRanges? signed.2 with
        | none => Parser.fail .posixUnknown start
        | some ranges => .ok (r.map fun _ =>
            if signed.1 then (Parser.asciiSet ranges).compl else Parser.asciiSet ranges))
      ((match Parser.posixRanges? signed.2 with
        | none => failAt (place src.pattern start) .posixUnknown
        | some ranges => do
          moveTo (place src.pattern r.rest)
          return if signed.1 then (Parser.asciiSet ranges).compl else Parser.asciiSet ranges)
        src (σ.facing src l start)) := by
  cases Parser.posixRanges? signed.2 with
  | none => exact .failAt hstart
  | some ranges =>
    simp only
    rw [moveTo_bind hrest]
    exact .ok _ hr

/-- The name of a class is cut out by the offset at which the colon after it is
found. -/
theorem posixClass_agrees (hs : '[' :: ':' :: s <:+ src.pattern) :
    Agrees src σ s (·.value) (fun _ => l) (·.rest) (Parser.posixClass ('[' :: ':' :: s) s)
      (posixClass src (σ.facing src l ('[' :: ':' :: s))) := by
  have hs' : s <:+ src.pattern := tail_suffix (tail_suffix hs)
  have hfind := findText?_splitAfter ':' ']' s
  have hplace := place_two hs rfl rfl
  rw [posixClass, here_bind, facing_pos, hplace, slice_bind hs',
    Parser.posixClass.eq_def]
  cases hsplit : Parser.splitAfter ':' ']' s with
  | none =>
    rw [hsplit] at hfind
    simp only [hfind]
    exact .failHere hs
  | some r =>
    obtain ⟨name, t, hlt⟩ := r
    rw [hsplit] at hfind
    obtain ⟨hvalue, hfind⟩ := hfind
    replace hvalue : s = name ++ (':' :: ']' :: t) := hvalue
    have hafter : ':' :: ']' :: t <:+ s := hvalue ▸ List.suffix_append _ _
    have ht : t <:+ s := tail_suffix (tail_suffix hafter)
    have hslice : sliceUpTo s (utf8Length name) = pure name := by
      rw [sliceUpTo, hvalue, textUpTo?_append]
    have hend : place src.pattern ('[' :: ':' :: s) + (2 + utf8Length name + 2) =
        place src.pattern t := by
      have hname : place src.pattern s + utf8Length name =
          place src.pattern (':' :: ']' :: t) := by
        rw [hvalue]
        exact place_add name (hvalue ▸ hs')
      rw [← place_two (hafter.trans hs') rfl rfl, ← hname, ← hplace]
      omega
    simp only [hfind, hslice]
    rw [pure_bind, hend]
    exact posixSet_agrees hs ⟨name, t, hlt⟩ ht (ht.trans hs') _

/-- Whether a walk reads the classes of a text that are no longer than a number
of characters.  It is told by the items of the class, since this is how a class
inside of another one is read. -/
def ReadsClasses (src : Source) (most : Nat) (w : Walk Parser.BracketClass) : Prop :=
  ∀ (σ : State) (l : Parser.Ledger) [Within src.pattern l] (c : Char) (s : List Char),
    c :: s <:+ src.pattern → (c :: s).length ≤ most →
    Clear σ.calls .bracketClass (place src.pattern (c :: s)) →
    Agrees src σ (c :: s) (·.value) (fun _ => l) (·.rest)
      (Parser.classItems σ.opts (c :: s) (Parser.afterCaret s).value (Parser.afterCaret s).rest
        true .empty)
      (w src (σ.facing src l (c :: s)))

theorem afterCaret_suffix : (Parser.afterCaret s).rest <:+ s := by
  rw [Parser.afterCaret.eq_def]
  split
  · exact List.suffix_cons _ _
  · exact List.suffix_refl _

omit hl in
theorem caret_bind {β : Type} {k : Bool → Walk β} (hs : s <:+ src.pattern) :
    (caret >>= k) src (σ.facing src l s) =
      k (Parser.afterCaret s).value src (σ.facing src l (Parser.afterCaret s).rest) := by
  refine bind_ok ?_
  rw [caret, char_bind hs, ite_run]
  split
  · rename_i h
    obtain ⟨t, rfl⟩ := List.head?_eq_some_iff.mp h
    exact bump_bind hs
  · rename_i h
    rw [Parser.afterCaret.eq_def]
    split
    · exact absurd List.head?_cons h
    · rfl

section

variable {inner : Walk Parser.BracketClass} {start : List Char} {most : Nat}

/-- The items of a class are read up to its end, where classes inside of it are
read by `inner`. -/
theorem loop_classRound (hinner : ReadsClasses src most inner) (hstart : start <:+ src.pattern)
    (hmost : start.length ≤ most + 1)
    (hclear : ∀ t, t <:+ start → t.length < start.length →
      Clear σ.calls .bracketClass (place src.pattern t))
    {negated : Bool} (hs : s <:+ start) (hlt : s.length < start.length) (first : Bool)
    (set : CharSet) :
    Agrees src σ s (·.value) (fun _ => l) (·.rest)
      (Parser.classItems σ.opts start negated s first set)
      (loop (classRound inner (place src.pattern start) negated) (first, set) src
        (σ.facing src l s)) := by
  induction hlen : s.length using Nat.strongRecOn generalizing s first set with
  | ind n ih =>
    have hs' : s <:+ src.pattern := hs.trans hstart
    have hnext {t : List Char} (ht : t <:+ s) (hlt' : t.length < s.length) (set : CharSet) :
        Agrees src σ s (·.value) (fun _ => l) (·.rest)
          (Parser.classItems σ.opts start negated t false set)
          (proceed (classRound inner (place src.pattern start) negated) (place src.pattern s)
            (.inl (false, set)) src (σ.facing src l t)) := by
      rw [proceed_inl hs' ht hlt']
      exact .mono (ih t.length (hlen ▸ hlt') (ht.trans hs) (by omega) false set rfl) ht
    rw [loop_eq_bind, classRound, bind_assoc, char_bind hs', Parser.classItems.eq_def]
    cases s with
    | nil => exact .error _ hstart
    | cons c s =>
      have hc : s <:+ c :: s := List.suffix_cons c s
      simp only [List.head?_cons]
      rw [bind_assoc, options_bind, bind_assoc, peekIs_bind hs', bind_assoc, peekIs_bind hs',
        isPrefixOf_pair, isPrefixOf_pair, facing_opts, facing_pos]
      refine .test_bind (fun hempty => ?_) fun _ => ?_
      · exact .failHere hs'
      refine .test_bind (fun hclose => ?_) fun _ => ?_
      · rw [bind_assoc, bump_bind hs']
        exact .ok _ hc
      refine .test_bind (fun hsubtracts => ?_) fun _ => ?_
      · cases first with
        | true => exact .failHere hs'
        | false =>
          cases s with
          | nil => simp at hsubtracts
          | cons bracket body =>
            have hbody : bracket :: body <:+ start := hc.trans hs
            have hshort : (bracket :: body).length < start.length := Nat.lt_of_succ_lt hlt
            rw [if_neg Bool.false_ne_true, if_neg Bool.false_ne_true, bind_assoc, bump_bind hs',
              bind_assoc]
            refine (hinner σ l bracket body (hbody.trans hstart) (by omega)
              (hclear _ hbody hshort)).bind fun r ht => ?_
            obtain ⟨other, t, hlt⟩ := r
            rw [bind_assoc, char_bind (ht.trans (hbody.trans hstart))]
            cases t with
            | nil => exact .error _ hstart
            | cons d t =>
              have ht' : d :: t <:+ src.pattern := ht.trans (hbody.trans hstart)
              simp only [Parser.Consumed.closedBy, List.head?_cons, Option.some.injEq]
              by_cases hd : d = ']'
              · rw [if_pos hd, if_pos hd, bind_assoc, bump_bind ht']
                exact .ok _ ((tail_suffix ht).trans hc)
              · rw [if_neg hd, if_neg hd]
                exact .error _ hstart
      refine .test_bind (fun hschema => ?_) fun _ => ?_
      · exact .failHere hs'
      refine .test_bind (fun hnamed => ?_) fun _ => ?_
      · rw [bind_assoc]
        cases s with
        | nil => simp at hnamed
        | cons d body =>
          obtain ⟨rfl, rfl⟩ : c = '[' ∧ d = ':' := by simpa using hnamed
          refine (posixClass_agrees hs').bind fun r ht => ?_
          obtain ⟨named, t, hlt⟩ := r
          exact .bind_return (hnext (ht.trans (tail_suffix hc)) (by simp; omega) _)
      refine .test_bind (fun hcomma => ?_) fun _ => ?_
      · rw [bind_assoc, bump_bind hs', pure_bind]
        exact .bind_return (hnext hc (Nat.lt_succ_self _) _)
      · rw [bind_assoc]
        refine (classRange_agrees hs').bind fun r ht => ?_
        obtain ⟨more, t, hlt⟩ := r
        exact .bind_return (hnext ht hlt _)

theorem bracketClassOf_agrees (hinner : ReadsClasses src most inner) :
    ReadsClasses src (most + 1) (bracketClassOf inner) := by
  intro σ l hl c s hs hmost hclear
  refine .enter hclear ?_
  rw [here_bind, facing_pos, bump_bind hs, caret_bind (tail_suffix hs)]
  have hitems : (Parser.afterCaret s).rest <:+ c :: s :=
    afterCaret_suffix.trans (List.suffix_cons c s)
  have hlt : (Parser.afterCaret s).rest.length < (c :: s).length :=
    Nat.lt_succ_of_le afterCaret_suffix.length_le
  refine .mono (loop_classRound hinner hs hmost (fun t ht hlt => ?_) hitems hlt true .empty) hitems
  have hplace := place_lt ht hlt hs
  exact hclear.entered (Nat.le_of_lt hplace) (.inl hplace)

theorem bracketClassWithin_agrees : ReadsClasses src most (bracketClassWithin most) := by
  induction most with
  | zero => exact fun _ _ _ _ _ _ hmost => absurd hmost (by simp)
  | succ most ih => exact bracketClassOf_agrees ih

end

/-- **A class is read** from its opening bracket on, with the classes that are
taken away from it. -/
theorem bracketClass_agrees {c : Char} (hs : c :: s <:+ src.pattern)
    (hclear : Clear σ.calls .bracketClass (place src.pattern (c :: s))) :
    Agrees src σ (c :: s) (·.value) (fun _ => l) (·.rest) (Parser.bracketClass σ.opts (c :: s))
      (bracketClass src (σ.facing src l (c :: s))) := by
  rw [bracketClass, source_bind, Parser.bracketClass.eq_def]
  exact .bind_return (bracketClassWithin_agrees σ l c s hs hs.length_le hclear)

theorem loop_operandRound (hs : s <:+ src.pattern)
    (hclear : ∀ t, t <:+ s → Clear σ.calls .bracketClass (place src.pattern t)) (set : CharSet) :
    Agrees src σ s (·.value) (fun _ => l) (·.rest) (Parser.classOperands σ.opts s set)
      (loop operandRound set src (σ.facing src l s)) := by
  induction hlen : s.length using Nat.strongRecOn generalizing s set with
  | ind n ih =>
    rw [loop_eq_bind, operandRound, bind_assoc, char_bind hs, Parser.classOperands.eq_def,
      facing_pos]
    split
    · rw [if_pos List.head?_cons]
      exact .ok _ (List.suffix_refl _)
    · rename_i c body hc
      have hopen : '[' :: body <:+ c :: '[' :: body := List.suffix_cons _ _
      have hparen : (c :: '[' :: body).head? ≠ some ')' := by simpa using hc
      rw [if_neg hparen]
      simp only [List.head?_cons, Option.bind_some]
      cases Parser.classOperator? c with
      | none => exact .error _ hs
      | some op =>
        simp only
        rw [bind_assoc, bump_bind hs, bind_assoc, char_bind (hopen.trans hs),
          if_pos List.head?_cons, bind_assoc]
        refine (bracketClass_agrees (hopen.trans hs) (hclear _ hopen)).bind fun r ht => ?_
        obtain ⟨other, t, hlt⟩ := r
        replace ht : t <:+ c :: '[' :: body := ht.trans hopen
        have hlt' : t.length < (c :: '[' :: body).length := Nat.lt_succ_of_lt hlt
        rw [pure_bind, proceed_inl hs ht hlt']
        exact .bind_return (.mono (ih t.length (hlen ▸ hlt') (ht.trans hs)
          (fun t' ht' => hclear t' (ht'.trans ht)) _ rfl) ht)
    · rename_i c t hc hopen
      have hparen : (c :: t).head? ≠ some ')' := by simpa using hc
      rw [if_neg hparen]
      simp only [List.head?_cons, Option.bind_some]
      cases Parser.classOperator? c with
      | none => exact .error _ hs
      | some op =>
        simp only
        rw [bind_assoc, bump_bind hs, bind_assoc, char_bind (tail_suffix hs),
          if_neg (head?_ne hopen)]
        exact .error _ (tail_suffix hs)
    · exact .error _ hs

theorem classOperation_agrees {c : Char} (hs : c :: s <:+ src.pattern)
    (hclear : ∀ t, t <:+ c :: s → Clear σ.calls .bracketClass (place src.pattern t)) :
    Agrees src σ (c :: s) (·.value) (fun _ => l) (·.rest) (Parser.classOperation σ.opts (c :: s))
      (classOperation src (σ.facing src l (c :: s))) := by
  rw [classOperation, Parser.classOperation.eq_def]
  refine (bracketClass_agrees hs (hclear _ (List.suffix_refl _))).bind fun ⟨k, t, hlt⟩ ht => ?_
  exact .bind_return (.mono (loop_operandRound (ht.trans hs)
    (fun t' ht' => hclear t' (ht'.trans ht)) _) ht)

end Cursor

end Regexp.Pattern
