import Mathlib.Data.List.Basic
import Regexp.Pool

/-!
# Custody of pooled values

Values are taken out of a pool, changed, handed back and thrown away, in any
order and by any number of borrowers at a time.  What one wants to know is that
no two borrowers ever hold the same value, that a value which is gone does not
come back, and that a value in the pool is what it was when it was handed back.

## A register

Values themselves cannot be told apart: two of them may be equal, and a value is
changed while it is lent.  So the statement is made with a register that follows
each value that was ever made, by the number of its making: where it is, and
what was done to it (`Fate`).  `Fate.next` is the rule for one event.  It is
meant to be the obvious one, and the register knows nothing of the pool but
whether its slot is full.

`Lending.Tracks` relates the register to the pool and its borrowers.  Each value
that the register places somewhere is there, as it was made with all its
changes; everything that is somewhere is in the register; and no two values are
at one place.  The last part is what makes the other two survive an event, since
a value that is moved must not be confused with another one.  One event is then
a composition of few steps, a value brought from one place to another
(`Lending.Tracks.move`), changed where it is, or made (`Lending.Tracks.make`),
and the statement for sequences of events is an induction on the sequence.

## Main definitions

* `Lending.Event`, `Lending.run` — what is done with a pool, and the pool after
  it.
* `Keeping`, `Fate` — where a value is, and what was done to it; `Fate.next` is
  the rule for one event.
* `Register` — the fates of all values, in the order in which they were made.
* `Lending.Tracks` — whether a register tells what a pool and its borrowers
  hold.

## Main statements

* `Lending.Tracks.next` — what one event does, a register tells.
* `Lending.tracks_run` — so it does for every sequence of events.
* `Register.gone_run` — a value that is gone is gone for good.
* `Lending.run_custody` — no value is shared, revived or hoarded.
-/

namespace Regexp

/-- Where a value is.  Loans are numbered in the order in which they begin. -/
inductive Keeping where
  /-- In the slot of the pool. -/
  | slot
  /-- With the borrower of a loan that has not ended. -/
  | loan (i : ℕ)
  /-- Nowhere. -/
  | gone
  deriving DecidableEq

/-- What can be done with a pool and with what it has lent.  Loans are named by
their numbers, and an event for a loan that has ended, or has not begun, does
nothing. -/
inductive Lending.Event (α : Type) where
  /-- A value is asked for. -/
  | get
  /-- The borrower of a loan changes its value. -/
  | change (i : ℕ) (f : α → α)
  /-- A loan ends and its value is handed back. -/
  | drop (i : ℕ)
  /-- A loan ends and its value is thrown away. -/
  | discard (i : ℕ)

open Lending (Event)

/-! ### What becomes of the values -/

/-- What is known of a value: where it is, and what was done to it.  The value
itself is left out, so that a register is the same for all values. -/
structure Fate (α : Type) where
  place : Keeping
  /-- The changes, the first one first. -/
  changes : List (α → α)

namespace Fate

variable {α : Type} {d : Fate α} {e : Event α} {p q : Keeping}

/-- What has become of a value that was made as `v`: the changes are applied in
the order in which they were made. -/
def value (d : Fate α) (v : α) : α := d.changes.foldl (fun x f => f x) v

/-- The fate with a value brought from one place to another one, if it is there.
A value that is elsewhere stays where it is. -/
def move (p q : Keeping) (d : Fate α) : Fate α := if d.place = p then { d with place := q } else d

/-- The fate with a value changed, if it is at a place.  Only borrowers change
values, so the place will be that of a loan. -/
def change (p : Keeping) (f : α → α) (d : Fate α) : Fate α :=
  if d.place = p then { d with changes := d.changes ++ [f] } else d

/-- The fate of a value after an event: a value in the slot is lent when one is
asked for, and one that is handed back goes there if the slot is not full. -/
def next (full : Bool) (loans : ℕ) : Event α → Fate α → Fate α
  | .get => move .slot (.loan loans)
  | .change i f => change (.loan i) f
  | .drop i => move (.loan i) (if full then .gone else .slot)
  | .discard i => move (.loan i) .gone

@[simp] theorem value_move (v : α) : (d.move p q).value v = d.value v := by
  rw [move]
  split <;> rfl

@[simp] theorem place_change {f : α → α} : (d.change p f).place = d.place := by
  rw [change]
  split <;> rfl

theorem value_change {f : α → α} (v : α) :
    (d.change p f).value v = if d.place = p then f (d.value v) else d.value v := by
  rw [change]
  split
  · simp [value]
  · rfl

theorem place_move : (d.move p q).place = if d.place = p then q else d.place := by
  rw [move]
  split <;> rfl

/-- What is gone stays as it is: no event looks for a value nowhere. -/
theorem next_of_gone (full : Bool) (loans : ℕ) (h : d.place = .gone) :
    d.next full loans e = d := by
  cases e <;> simp [next, move, change, h]

end Fate

/-- The fates of all values that were made, in the order in which they were
made, and the number of loans.  It is what a bookkeeper knows who sees the
events and not the pool. -/
structure Register (α : Type) where
  fates : List (Fate α)
  loans : ℕ

namespace Register

variable {α : Type} {r : Register α} {e : Event α} {n : ℕ} {d : Fate α}

/-- Whether a value is in the slot.  This is all that an event needs to know of
the pool. -/
def full (r : Register α) : Bool := r.fates.any (·.place = .slot)

/-- The register after an event; a value is made if one is asked for while the
slot is empty, and nothing else makes one. -/
def next (r : Register α) (e : Event α) : Register α :=
  let fates := r.fates.map (·.next r.full r.loans e)
  match e with
  | .get => ⟨if r.full then fates else fates ++ [⟨.loan r.loans, []⟩], r.loans + 1⟩
  | _ => ⟨fates, r.loans⟩

/-- The register of a pool that has made no value yet, after several events. -/
def run (es : List (Event α)) : Register α := es.foldl next ⟨[], 0⟩

theorem run_append (es es' : List (Event α)) : run (es ++ es') = es'.foldl next (run es) :=
  List.foldl_append

/-- What holds of a fate after a change holds of the changed fate.  Events that
make no value map the fates, and this takes `Lending.Tracks.valueAt_iff` through
them. -/
theorem exists_map_iff {fates : List (Fate α)} {g : Fate α → Fate α} {P : ℕ → Fate α → Prop} :
    (∃ n d, (fates.map g)[n]? = some d ∧ P n d) ↔ ∃ n d, fates[n]? = some d ∧ P n (g d) := by
  simp only [List.getElem?_map, Option.map_eq_some_iff]
  constructor
  · rintro ⟨n, _, ⟨d, hn, rfl⟩, hd⟩
    exact ⟨n, d, hn, hd⟩
  · rintro ⟨n, d, hn, hd⟩
    exact ⟨n, g d, ⟨d, hn, rfl⟩, hd⟩

/-- The fate that is added last is that of the value that was made last. -/
theorem getElem?_snoc {fates : List (Fate α)} {c : Fate α} :
    (fates ++ [c])[n]? = some d ↔ fates[n]? = some d ∨ n = fates.length ∧ c = d := by
  rw [List.getElem?_append]
  split
  · have : n ≠ fates.length := by omega
    simp [this]
  · have hnone : fates[n]? = none := List.getElem?_eq_none (by omega)
    rw [hnone, List.getElem?_singleton]
    split
    · have : n = fates.length := by omega
      simp [this]
    · have : n ≠ fates.length := by omega
      simp [this]

/-- Every value that was made keeps its number, and its fate goes on by
`Fate.next`. -/
theorem getElem?_next (h : r.fates[n]? = some d) :
    (r.next e).fates[n]? = some (d.next r.full r.loans e) := by
  have hlt := (List.getElem?_eq_some_iff.mp h).1
  cases e with
  | get =>
    simp only [next]
    split
    · simp [h]
    · rw [List.getElem?_append_left (by simpa using hlt)]
      simp [h]
  | _ => simp [next, h]

/-- **What is gone is gone for good**, whatever happens next.  No event moves a
value from nowhere. -/
theorem gone_run {es es' : List (Event α)} (h : (run es).fates[n]? = some d)
    (hgone : d.place = .gone) : (run (es ++ es')).fates[n]? = some d := by
  rw [run_append]
  generalize run es = r at h ⊢
  induction es' generalizing r with
  | nil => exact h
  | cons e es' ih =>
    refine ih _ ?_
    rw [getElem?_next h, Fate.next_of_gone _ _ hgone]

end Register

/-! ### What a pool and its borrowers hold -/

namespace Lending

variable {α : Type} {create : ℕ → α} {l l' : Lending α} {r : Register α} {p q : Keeping}

/-- A pool and its borrowers after an event.  It is the function of the pool
that the event is named for. -/
def next (l : Lending α) : Event α → Lending α
  | .get => l.lend
  | .change i f => l.modify i f
  | .drop i => l.giveBack i
  | .discard i => l.discard i

/-- A pool that has made no value yet, and its borrowers, after several events. -/
def run (create : ℕ → α) (es : List (Event α)) : Lending α :=
  es.foldl next (.ofPool (.ofCreate create))

/-- The value at a place.  Nothing is ever nowhere. -/
def valueAt (l : Lending α) : Keeping → Option α
  | .slot => l.pool.slot
  | .loan i => l.read? i
  | .gone => none

/-! ### What one event does -/

theorem read?_lend (i : ℕ) : l.lend.read? i =
    if i = l.loans.size then some l.pool.take.1 else l.read? i := by
  rw [read?, lend]
  simp only [Array.getElem?_push]
  split <;> rfl

/-- The number of the next loan has no value yet, so a loan that begins disturbs
no other one. -/
theorem read?_size : l.read? l.loans.size = none := by
  rw [read?, Array.getElem?_eq_none (Nat.le_refl _)]
  rfl

theorem read?_modify (i j : ℕ) (f : α → α) :
    (l.modify i f).read? j = if j = i then (l.read? i).map f else l.read? j := by
  rw [read?, modify, Array.getElem?_modify]
  split
  · rename_i heq
    subst heq
    rw [if_pos rfl, read?]
    cases l.loans[i]? <;> rfl
  · rename_i hne
    rw [if_neg (Ne.symm hne), read?]

theorem getElem?_join_setIfInBounds (a : Array (Option α)) (i j : ℕ) :
    (a.setIfInBounds i none)[j]?.join = if j = i then none else a[j]?.join := by
  rw [Array.getElem?_setIfInBounds]
  split
  · rename_i heq
    subst heq
    rw [if_pos rfl]
    split <;> rfl
  · rename_i hne
    rw [if_neg (Ne.symm hne)]

theorem read?_discard (i j : ℕ) :
    (l.discard i).read? j = if j = i then none else l.read? j :=
  getElem?_join_setIfInBounds l.loans i j

/-- What is handed back is no longer lent, whether the pool keeps it or not. -/
theorem read?_giveBack (i j : ℕ) :
    (l.giveBack i).read? j = if j = i then none else l.read? j := by
  rw [giveBack]
  split
  · exact getElem?_join_setIfInBounds l.loans i j
  · rename_i hnone
    split
    · rename_i heq
      rw [heq, hnone]
    · rfl

/-- What is handed back goes into the slot if that is empty.  Otherwise the pool
keeps what it has. -/
theorem pool_giveBack (i : ℕ) :
    (l.giveBack i).pool = { l.pool with slot := l.pool.slot.or (l.read? i) } := by
  rw [giveBack]
  split
  · rename_i v hv
    rw [hv]
    obtain ⟨⟨slot, create, made⟩, loans⟩ := l
    cases slot <;> rfl
  · rename_i hnone
    simp [hnone]

theorem size_giveBack (i : ℕ) : (l.giveBack i).loans.size = l.loans.size := by
  rw [giveBack]
  split
  · exact Array.size_setIfInBounds ..
  · rfl

/-- Whether a register tells what a pool and its borrowers hold: at each place
but nowhere there is just the value whose fate says so. -/
structure Tracks (create : ℕ → α) (l : Lending α) (r : Register α) : Prop where
  create_eq : l.pool.create = create
  made_eq : l.pool.made = r.fates.length
  loans_eq : l.loans.size = r.loans
  /-- What is at a place is one of the values that were made, with all its
  changes. -/
  valueAt_iff : ∀ p x, p ≠ Keeping.gone → (l.valueAt p = some x ↔
    ∃ (n : ℕ) (d : Fate α), r.fates[n]? = some d ∧ d.place = p ∧ d.value (create n) = x)
  /-- No two values are at one place. -/
  exclusive : ∀ (m n : ℕ) (d e : Fate α), r.fates[m]? = some d → r.fates[n]? = some e →
    d.place = e.place → d.place ≠ .gone → m = n

namespace Tracks

variable (h : Tracks create l r)

include h

theorem full_eq : r.full = l.pool.slot.isSome := by
  rw [Bool.eq_iff_iff, Option.isSome_iff_exists, Register.full, List.any_eq_true]
  constructor
  · rintro ⟨d, hd, hslot⟩
    obtain ⟨n, hn⟩ := List.mem_iff_getElem?.mp hd
    exact ⟨_, (h.valueAt_iff .slot _ nofun).mpr ⟨n, d, hn, by simpa using hslot, rfl⟩⟩
  · rintro ⟨x, hx⟩
    obtain ⟨n, d, hn, hslot, -⟩ := (h.valueAt_iff .slot x nofun).mp hx
    exact ⟨d, List.mem_of_getElem? hn, by simpa using hslot⟩

/-- No value is at a place where there is none.  This is how a place is known to
be free for the register too. -/
theorem place_ne (hp : p ≠ .gone) (hnone : l.valueAt p = none) {n : ℕ} {d : Fate α}
    (hn : r.fates[n]? = some d) : d.place ≠ p := by
  intro hplace
  have hsome := (h.valueAt_iff p _ hp).mpr ⟨n, d, hn, hplace, rfl⟩
  rw [hnone] at hsome
  cases hsome

/-- A value is brought from one place to another one that is free, or away.  Of
the pool it asks only what is at each place afterwards. -/
theorem move {loans : ℕ} (hloans : l'.loans.size = loans) (hp : p ≠ .gone) (hpq : p ≠ q)
    (hfree : q ≠ .gone → l.valueAt q = none)
    (hpool : l'.pool.create = l.pool.create ∧ l'.pool.made = l.pool.made)
    (hvalues : ∀ p', p' ≠ .gone → l'.valueAt p' =
      if p' = p then none else if p' = q then l.valueAt p else l.valueAt p') :
    Tracks create l' ⟨r.fates.map (.move p q), loans⟩ where
  create_eq := hpool.1.trans h.create_eq
  made_eq := by rw [hpool.2, h.made_eq, List.length_map]
  loans_eq := hloans
  valueAt_iff p' x hp' := by
    rw [Register.exists_map_iff, hvalues p' hp']
    simp only [Fate.value_move, Fate.place_move]
    by_cases hleft : p' = p
    · subst hleft
      rw [if_pos rfl]
      refine iff_of_false nofun ?_
      rintro ⟨n, d, -, hplace, -⟩
      split at hplace
      · exact hpq hplace.symm
      · contradiction
    rw [if_neg hleft]
    by_cases hright : p' = q
    · subst hright
      rw [if_pos rfl, h.valueAt_iff p x hp]
      refine exists₂_congr fun n d => and_congr_right fun hn => and_congr_left' ?_
      have := h.place_ne hp' (hfree hp') hn
      split <;> simp_all
    · rw [if_neg hright, h.valueAt_iff p' x hp']
      refine exists₂_congr fun n d => and_congr_right fun hn => and_congr_left' ?_
      split <;> simp_all [eq_comm]
  exclusive m n d e hm hn heq hgone := by
    simp only [List.getElem?_map, Option.map_eq_some_iff] at hm hn
    obtain ⟨d, hm, rfl⟩ := hm
    obtain ⟨e, hn, rfl⟩ := hn
    rw [Fate.place_move] at heq hgone
    rw [Fate.place_move] at heq
    -- The place that the value is brought to is free, so no other value is there.
    have hfree' : ∀ {k : ℕ} {c : Fate α}, r.fates[k]? = some c → c.place = q → q = .gone :=
      fun hk hplace => by_contra fun hq => h.place_ne hq (hfree hq) hk hplace
    by_cases hd : d.place = p <;> by_cases he : e.place = p
    · exact h.exclusive m n d e hm hn (hd.trans he.symm) (hd ▸ hp)
    · rw [if_pos hd, if_neg he] at heq
      rw [if_pos hd] at hgone
      exact absurd (hfree' hn heq.symm) hgone
    · rw [if_neg hd, if_pos he] at heq
      rw [if_neg hd, heq] at hgone
      exact absurd (hfree' hm heq) hgone
    · rw [if_neg hd, if_neg he] at heq
      rw [if_neg hd] at hgone
      exact h.exclusive m n d e hm hn heq hgone

/-- A value is changed where it is.  Nothing moves, so no two values can come to
one place. -/
theorem change {f : α → α} (hloans : l'.loans.size = r.loans) (hp : p ≠ .gone)
    (hpool : l'.pool.create = l.pool.create ∧ l'.pool.made = l.pool.made)
    (hvalues : ∀ p', p' ≠ .gone → l'.valueAt p' =
      if p' = p then (l.valueAt p).map f else l.valueAt p') :
    Tracks create l' ⟨r.fates.map (.change p f), r.loans⟩ where
  create_eq := hpool.1.trans h.create_eq
  made_eq := by rw [hpool.2, h.made_eq, List.length_map]
  loans_eq := hloans
  valueAt_iff p' x hp' := by
    rw [Register.exists_map_iff, hvalues p' hp']
    simp only [Fate.value_change, Fate.place_change]
    split
    · rename_i heq
      subst heq
      simp only [Option.map_eq_some_iff, h.valueAt_iff p' _ hp']
      constructor
      · rintro ⟨_, ⟨n, d, hn, hplace, rfl⟩, rfl⟩
        exact ⟨n, d, hn, hplace, if_pos hplace⟩
      · rintro ⟨n, d, hn, hplace, rfl⟩
        exact ⟨_, ⟨n, d, hn, hplace, rfl⟩, (if_pos hplace).symm⟩
    · rename_i hne
      rw [h.valueAt_iff p' x hp']
      refine exists₂_congr fun n d => and_congr_right fun hn => and_congr_right fun hplace => ?_
      rw [if_neg (by rwa [hplace])]
  exclusive m n d e hm hn heq hgone := by
    simp only [List.getElem?_map, Option.map_eq_some_iff] at hm hn
    obtain ⟨d, hm, rfl⟩ := hm
    obtain ⟨e, hn, rfl⟩ := hn
    rw [Fate.place_change] at heq hgone
    rw [Fate.place_change] at heq
    exact h.exclusive m n d e hm hn heq hgone

/-- A value is made for a place that is free.  It is the one that the pool's
`create` makes next, and its number is that of the values before it. -/
theorem make {loans : ℕ} (hloans : l'.loans.size = loans) (hp : p ≠ .gone)
    (hfree : l.valueAt p = none)
    (hpool : l'.pool.create = l.pool.create ∧ l'.pool.made = l.pool.made + 1)
    (hvalues : ∀ p', p' ≠ .gone → l'.valueAt p' =
      if p' = p then some (create l.pool.made) else l.valueAt p') :
    Tracks create l' ⟨r.fates ++ [⟨p, []⟩], loans⟩ where
  create_eq := hpool.1.trans h.create_eq
  made_eq := by rw [hpool.2, h.made_eq, List.length_append, List.length_singleton]
  loans_eq := hloans
  valueAt_iff p' x hp' := by
    simp only [Register.getElem?_snoc, or_and_right, exists_or, hvalues p' hp']
    split
    · rename_i heq
      subst heq
      have hnone := h.valueAt_iff p' x hp'
      rw [hfree] at hnone
      rw [← hnone, h.made_eq]
      simp [Fate.value, eq_comm]
    · rename_i hne
      rw [h.valueAt_iff p' x hp', iff_self_or]
      rintro ⟨n, d, ⟨-, rfl⟩, hplace, -⟩
      exact absurd hplace.symm hne
  exclusive m n d e hm hn heq hgone := by
    rw [Register.getElem?_snoc] at hm hn
    rcases hm with hm | ⟨rfl, rfl⟩ <;> rcases hn with hn | ⟨rfl, rfl⟩
    · exact h.exclusive m n d e hm hn heq hgone
    · exact absurd heq (h.place_ne hp hfree hm)
    · exact absurd heq.symm (h.place_ne hp hfree hn)
    · rfl

/-- A value is lent: the one in the slot, or else a new one.  In the register
the one is a `Lending.Tracks.move` and the other a `Lending.Tracks.make`. -/
theorem lend : Tracks create l.lend (r.next .get) := by
  have hloans := h.loans_eq
  have hsize : l.lend.loans.size = r.loans + 1 := by rw [Lending.lend, Array.size_push, hloans]
  have hfree : l.valueAt (.loan r.loans) = none := by
    rw [← hloans]
    exact read?_size
  rw [Register.next, h.full_eq]
  cases hslot : l.pool.slot with
  | some v =>
    have htake : l.pool.take = (v, { l.pool with slot := none }) := by rw [Pool.take, hslot]
    refine h.move hsize nofun nofun (fun _ => hfree) (by simp [Lending.lend, htake]) ?_
    intro p' hp'
    cases p' with
    | slot => simp [valueAt, Lending.lend, htake]
    | loan i => simp [valueAt, read?_lend, htake, hslot, hloans]
    | gone => contradiction
  | none =>
    have htake : l.pool.take = (create l.pool.made, { l.pool with made := l.pool.made + 1 }) := by
      simp only [Pool.take, hslot, h.create_eq]
    have hstays : ∀ d ∈ r.fates, d.next false r.loans .get = d := by
      intro d hd
      obtain ⟨n, hn⟩ := List.mem_iff_getElem?.mp hd
      exact if_neg (h.place_ne (p := .slot) nofun hslot hn)
    simp only [Option.isSome_none, List.map_congr_left hstays, List.map_id', Bool.false_eq_true,
      if_false]
    refine h.make hsize nofun hfree (by simp [Lending.lend, htake]) fun p' hp' => ?_
    cases p' with
    | slot => simp [valueAt, Lending.lend, htake]
    | loan i => simp [valueAt, read?_lend, htake, hloans]
    | gone => contradiction

theorem modify (i : ℕ) (f : α → α) : Tracks create (l.modify i f) (r.next (.change i f)) := by
  have hsize : (l.modify i f).loans.size = r.loans := Array.size_modify.trans h.loans_eq
  refine h.change hsize nofun ⟨rfl, rfl⟩ fun p' hp' => ?_
  cases p' with
  | slot => rfl
  | loan j => simp [valueAt, read?_modify]
  | gone => contradiction

/-- A loan ends, and its value is brought away.  There is nothing to show of the
slot, which is left as it is. -/
theorem discard (i : ℕ) : Tracks create (l.discard i) (r.next (.discard i)) := by
  have hsize : (l.discard i).loans.size = r.loans :=
    (Array.size_setIfInBounds ..).trans h.loans_eq
  refine h.move hsize nofun nofun (absurd rfl) ⟨rfl, rfl⟩ fun p' hp' => ?_
  cases p' with
  | slot => rfl
  | loan j => simp [valueAt, read?_discard]
  | gone => contradiction

/-- A loan ends, and its value is brought into the slot if that is empty, and
away if not. -/
theorem giveBack (i : ℕ) : Tracks create (l.giveBack i) (r.next (.drop i)) := by
  have hsize := (size_giveBack i).trans h.loans_eq
  have hpool := pool_giveBack (l := l) i
  have hsame : (l.giveBack i).pool.create = l.pool.create ∧
      (l.giveBack i).pool.made = l.pool.made := by simp [hpool]
  change Tracks create _ ⟨r.fates.map (.move (.loan i) (if r.full then .gone else .slot)), r.loans⟩
  rw [h.full_eq]
  cases hslot : l.pool.slot with
  | some v =>
    refine h.move hsize nofun nofun (absurd rfl) hsame fun p' hp' => ?_
    cases p' with
    | slot => simp [valueAt, hpool, hslot]
    | loan j => simp [valueAt, read?_giveBack]
    | gone => contradiction
  | none =>
    refine h.move hsize nofun nofun (fun _ => hslot) hsame fun p' hp' => ?_
    cases p' with
    | slot => simp [valueAt, hpool, hslot]
    | loan j => simp [valueAt, read?_giveBack]
    | gone => contradiction

/-- **What one event does, the register tells.** -/
theorem next (e : Event α) : Tracks create (l.next e) (r.next e) := by
  cases e with
  | get => exact h.lend
  | change i f => exact h.modify i f
  | drop i => exact h.giveBack i
  | discard i => exact h.discard i

end Tracks

/-- **The register of a sequence of events tells what a pool and its borrowers
hold after it.** -/
theorem tracks_run (create : ℕ → α) (es : List (Event α)) :
    Tracks create (run create es) (Register.run es) := by
  have hstart : Tracks create (.ofPool (.ofCreate create)) ⟨[], 0⟩ := by
    refine ⟨rfl, rfl, rfl, fun p x hp => ?_, fun m n d e hm => by simp at hm⟩
    cases p <;> simp [valueAt, ofPool, Pool.ofCreate, read?]
  rw [run, Register.run]
  generalize Lending.ofPool (.ofCreate create) = l at hstart ⊢
  generalize (⟨[], 0⟩ : Register α) = r at hstart ⊢
  induction es generalizing l r with
  | nil => exact hstart
  | cons e es ih => exact ih _ _ (hstart.next e)

/-- Whoever holds a value keeps it until the loan ends.  Other loans may begin
and end meanwhile. -/
theorem isSome_read?_next {l : Lending α} {e : Event α} {i : ℕ} (h : (l.read? i).isSome = true)
    (hdrop : e ≠ .drop i) (hdiscard : e ≠ .discard i) : ((l.next e).read? i).isSome = true := by
  cases e with
  | get =>
    rw [next, read?_lend]
    split
    · rfl
    · exact h
  | change j f =>
    rw [next, read?_modify]
    split
    · rename_i heq
      rwa [Option.isSome_map, ← heq]
    · exact h
  | drop j =>
    have hne : i ≠ j := fun heq => hdrop (heq ▸ rfl)
    rwa [next, read?_giveBack, if_neg hne]
  | discard j =>
    have hne : i ≠ j := fun heq => hdiscard (heq ▸ rfl)
    rwa [next, read?_discard, if_neg hne]

/-- **No value is shared, revived or hoarded.**  After any sequence of events,
on any number of loans at a time, the register tells what the slot and the
borrowers hold: each value that was ever made is in one place, no two are at one
place, and what is at a place is the value as it was made with all its changes.
A value that is gone is gone for good.  A value that is thrown away is gone, and
so is one that is handed back while the slot is full; otherwise it is in the
slot.  Whoever asks for a value gets the one in the slot, which is then empty,
and a new one only if there is none; and keeps it until the loan ends. -/
theorem run_custody (create : ℕ → α) (es : List (Event α)) :
    let l := run create es
    let r := Register.run es
    Tracks create l r ∧
      (∀ (n : ℕ) (d : Fate α) (es' : List (Event α)), r.fates[n]? = some d → d.place = .gone →
        (Register.run (es ++ es')).fates[n]? = some d) ∧
      (∀ (n i : ℕ) (d : Fate α), r.fates[n]? = some d → d.place = .loan i →
        (Register.run (es ++ [.discard i])).fates[n]? = some { d with place := .gone } ∧
        (Register.run (es ++ [.drop i])).fates[n]? =
          some { d with place := if l.pool.slot.isSome then .gone else .slot }) ∧
      (∀ x, l.pool.slot = some x → l.lend.read? l.loans.size = some x ∧
        l.lend.pool.made = l.pool.made ∧ l.lend.pool.slot = none) ∧
      (l.pool.slot = none → l.lend.read? l.loans.size = some (create l.pool.made) ∧
        l.lend.pool.made = l.pool.made + 1 ∧ l.lend.pool.slot = none) ∧
      ∀ (i : ℕ) (e : Event α), (l.read? i).isSome = true → e ≠ .drop i → e ≠ .discard i →
        ((l.next e).read? i).isSome = true := by
  intro l r
  have h : Tracks create l r := tracks_run create es
  refine ⟨h, fun n d es' => Register.gone_run, fun n i d hn hplace => ?_, fun x hslot => ?_,
    fun hslot => ?_, fun i e => isSome_read?_next⟩
  · simp only [Register.run_append, List.foldl_cons, List.foldl_nil]
    have hmoved : ∀ q, d.move (.loan i) q = { d with place := q } := fun q => if_pos hplace
    constructor
    · rw [Register.getElem?_next hn, ← hmoved]
      rfl
    · rw [Register.getElem?_next hn, ← hmoved, ← h.full_eq]
      rfl
  · rw [read?_lend, if_pos rfl]
    simp [lend, Pool.take, hslot]
  · rw [read?_lend, if_pos rfl]
    simp [lend, Pool.take, hslot, h.create_eq]

/-- Of two borrowers the first one to hand back fills the slot, and the value of
the other is gone. -/
example :
    (run (fun _ => "a") [.get, .change 0 (· ++ "x"), .get, .drop 0, .drop 1, .get]).read? 2 =
      some "ax" := by decide

end Lending

end Regexp
