/-!
# Pools of reusable values

A pool keeps at most one value for whoever needs one next.  A value that is
asked for while the slot is empty is made anew; a value that is handed back
while the slot is full is lost.  So the number of values in use is not limited
by the pool, and the number of values that lie idle is at most one.

The pool itself does not know who has its values.  `Lending` adds the loans, by
number: who asks for a value gets the next number, and a loan that has ended
holds nothing.  A loan ends when its value is handed back (`Lending.giveBack`)
or thrown away (`Lending.discard`), as happens to the cache of a search that
fails.  Ending a loan twice has no effect.  Values are made in a sequence, so
that two of them can be told apart by when they were made.

## Main definitions

* `Pool` — the slot, and how values are made.
* `Pool.take`, `Pool.put` — taking a value out and handing one back.
* `Lending` — a pool with the values that are lent.
* `Lending.lend`, `Lending.modify`, `Lending.giveBack`, `Lending.discard` — what
  becomes of a loan.
-/

namespace Regexp

/-- A slot for a value, and a way to make more of them.  Values are numbered in
the order in which they are made, so that those of one pool can be told apart. -/
structure Pool (α : Type) where
  slot : Option α
  /-- The value that is made when so many have been made before. -/
  create : Nat → α
  /-- The number of values made so far. -/
  made : Nat

namespace Pool

variable {α : Type}

/-- The pool that has made no value yet. -/
def ofCreate (create : Nat → α) : Pool α := ⟨none, create, 0⟩

/-- The value in the slot, or a new one, and the pool without it.  A new value
is counted. -/
def take (p : Pool α) : α × Pool α :=
  match p.slot with
  | some v => (v, { p with slot := none })
  | none => (p.create p.made, { p with made := p.made + 1 })

/-- The pool with a value handed back, if there is a place for it.  Otherwise
the value is lost, and the one in the slot stays. -/
def put (p : Pool α) (v : α) : Pool α :=
  match p.slot with
  | some _ => p
  | none => { p with slot := some v }

end Pool

/-- A pool with the values that are lent, by number of the loan; a loan that has
ended holds none. -/
structure Lending (α : Type) where
  pool : Pool α
  loans : Array (Option α)

namespace Lending

variable {α : Type}

/-- A pool of which nothing is lent. -/
def ofPool (pool : Pool α) : Lending α := ⟨pool, #[]⟩

/-- A new loan, whose number is that of the loans before.  Numbers are not used
again. -/
def lend (l : Lending α) : Lending α :=
  let (v, pool) := l.pool.take
  ⟨pool, l.loans.push (some v)⟩

/-- Whether there ever was a loan of a number.  It may have ended since. -/
def hasLoan (l : Lending α) (i : Nat) : Bool := i < l.loans.size

/-- The value of a loan that has not ended. -/
def read? (l : Lending α) (i : Nat) : Option α := (l.loans[i]?).join

/-- The loans with the value of one of them changed.  If it has ended there is
nothing to change. -/
def modify (l : Lending α) (i : Nat) (f : α → α) : Lending α :=
  { l with loans := l.loans.modify i (·.map f) }

/-- A loan ended and its value handed back.  A loan that has ended before is
left alone. -/
def giveBack (l : Lending α) (i : Nat) : Lending α :=
  match l.read? i with
  | some v => ⟨l.pool.put v, l.loans.setIfInBounds i none⟩
  | none => l

/-- A loan ended and its value lost.  The pool does not learn of it. -/
def discard (l : Lending α) (i : Nat) : Lending α :=
  { l with loans := l.loans.setIfInBounds i none }

end Lending

end Regexp
