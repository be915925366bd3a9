import Regexp.Proofs.Exploration
import Regexp.Proofs.Growth

/-!
# Conveyance

An emitter does not know what comes behind the operations that it makes.  So
what it makes is told by all paths to the end of the program: they lead through
a relation between places to the link that follows (`Conveys`).  This form of
statement composes, and it does not mention indices.

## Two directions

A path may be followed by the relation in any case.  The other direction, that
the relation may be followed by a path, is stated under `exact`, because moves
may be more generous than what an emitter stands for.  What a place is does not
matter here; it may be an offset, or an offset with all that was recorded on the
way, and only *good* places count, which the relation has to keep.

Paths have a length.  `Conveys` says not only that a path leads through the
relation to the link that follows, but that no longer path is left there.  For a
closure this is what makes the induction work: a path through the body comes
back to the closure with less left to do, so that `Conveys.loop` can be an
induction on the length, while an induction on the number of rounds would have
no path to begin with.

## Emitters

`Emitter.Conveys` is the statement for an emitter, whatever program the
operations come to lie in.  It is shown once each for copies, for optional parts
and for closures, and put together in `Emitter.Conveys.repetition`.  An optional
part is followed by a link that other parts lead to as well, so its lemma is
stated with a longer way to the same link (`Emitter.optionals_conveys`).

## Main definitions

* `Moves`, `Leads` — what single operations allow, and a path to the end of the
  program.
* `Moves.Branching` — moves that follow choices and closures.
* `Conveys` — the paths from some links lead through a relation to a link.
* `Emitter.Conveys` — what an emitter makes conveys to the link that follows.

## Main statements

* `Conveys.loop` — a closure conveys through its body any number of times.
* `Emitter.Conveys.repetition` — a repetition conveys through its body as often
  as its bounds say.
-/

namespace Regexp

variable {X : Type}

/-- The moves that operations allow, from an index and a place to a link and a
place.  They stand for `Move` as well as for `Tread`, and what is shown of them
holds for the paths of both. -/
abbrev Moves (X : Type) := ℕ → X → Link → X → Prop

/-- A path of some length from a link and a place to the end of the program at a
place. -/
inductive Leads (M : Moves X) : ℕ → Link → X → X → Prop
  | done {x} : Leads M 0 none x x
  | step {n k x l y z} (move : M k x l y) (rest : Leads M n l y z) : Leads M (n + 1) (some k) x z

/-- One relation several times in a row, as `Times` has it for offsets. -/
def Repeats (W : X → X → Prop) : ℕ → X → X → Prop
  | 0, x, y => x = y
  | n + 1, x, y => ∃ z, W x z ∧ Repeats W n z y

/-- Whether choices and closures are followed along each of their branches, and
without a change of place.  Which branch is preferred is of no account. -/
def Moves.Branching (M : Moves X) (ops : Array Op) : Prop :=
  ∀ (k : ℕ) (op : Op) (x : X) (l : Link) (y : X), ops[k]? = some op →
    (op.isChoice || op.isClosure) = true → (M k x l y ↔ l ∈ op.branches ∧ y = x)

theorem repeats_add {W : X → X → Prop} {n n' : ℕ} {x y : X} :
    Repeats W (n + n') x y ↔ ∃ z, Repeats W n x z ∧ Repeats W n' z y := by
  induction n generalizing x with
  | zero => simp [Repeats]
  | succ n ih =>
    rw [Nat.succ_add, Repeats]
    simp only [Repeats, ih]
    grind

/-- The last one of several. -/
theorem repeats_succ_right {W : X → X → Prop} {n : ℕ} {x y : X} :
    Repeats W (n + 1) x y ↔ ∃ z, Repeats W n x z ∧ W z y := by
  rw [repeats_add]
  simp only [Repeats, exists_eq_right]

/-- What a relation keeps, it keeps when it is repeated. -/
theorem Repeats.keeps {W : X → X → Prop} {P : X → Prop} (hW : ∀ x y, P x → W x y → P y) {n : ℕ}
    {x y : X} (hx : P x) (h : Repeats W n x y) : P y := by
  induction n generalizing x with
  | zero => exact h ▸ hx
  | succ n ih =>
    obtain ⟨z, hz, h⟩ := h
    exact ih (hW x z hx hz) h

/-- Whether the paths from links lead through a relation between places to a
link that follows, and no longer path is left there.  Only good places count.
Unless this is `exact`, the relation may lead where no path does. -/
structure Conveys (M : Moves X) (good : X → Prop) (exact : Bool) (links : List Link) (next : Link)
    (W : X → X → Prop) : Prop where
  keeps : ∀ x y, good x → W x y → good y
  sound : ∀ n l x z, l ∈ links → good x → Leads M n l x z →
    ∃ y n', n' ≤ n ∧ W x y ∧ Leads M n' next y z
  complete : exact = true → ∀ n x y z, good x → W x y → Leads M n next y z →
    ∃ l ∈ links, ∃ n', Leads M n' l x z

namespace Conveys

variable {M : Moves X} {good : X → Prop} {exact : Bool} {links links' : List Link}
  {link next last : Link} {W W' : X → X → Prop} {k : ℕ} {ops : Array Op} {op : Op}

theorem refl : Conveys M good exact [link] link (· = ·) where
  keeps _ _ hx h := h ▸ hx
  sound n _ x _ hl _ hr := ⟨x, n, le_rfl, rfl, List.mem_singleton.mp hl ▸ hr⟩
  complete _ n _ _ _ _ h hr := ⟨link, List.mem_cons_self, n, h ▸ hr⟩

/-- One conveyance after the other. -/
theorem trans (h : Conveys M good exact links next W) (h' : Conveys M good exact [next] last W') :
    Conveys M good exact links last fun x y => ∃ z, W x z ∧ W' z y where
  keeps x y hx := fun ⟨z, hz, hy⟩ => h'.keeps z y (h.keeps x z hx hz) hy
  sound n l x e hl hx hr := by
    obtain ⟨z, n', hle, hz, hr⟩ := h.sound n l x e hl hx hr
    obtain ⟨y, n'', hle', hy, hr⟩ :=
      h'.sound n' next z e List.mem_cons_self (h.keeps x z hx hz) hr
    exact ⟨y, n'', hle'.trans hle, ⟨z, hz, hy⟩, hr⟩
  complete hs n x y e hx := by
    rintro ⟨z, hz, hy⟩ hr
    obtain ⟨l, hl, n', hr⟩ := h'.complete hs n z y e (h.keeps x z hx hz) hy hr
    obtain rfl := List.mem_singleton.mp hl
    exact h.complete hs n' x z e hx hz hr

/-- The relation may be told in another way, and the links in another order. -/
theorem congr (hW : ∀ x y, good x → (W x y ↔ W' x y)) (hlinks : ∀ l, l ∈ links ↔ l ∈ links')
    (h : Conveys M good exact links next W) : Conveys M good exact links' next W' where
  keeps x y hx h' := h.keeps x y hx ((hW x y hx).mpr h')
  sound n l x e hl hx hr := by
    obtain ⟨y, n', hle, hy, hr⟩ := h.sound n l x e ((hlinks l).mpr hl) hx hr
    exact ⟨y, n', hle, (hW x y hx).mp hy, hr⟩
  complete hs n x y e hx h' hr := by
    obtain ⟨l, hl, hr⟩ := h.complete hs n x y e hx ((hW x y hx).mpr h') hr
    exact ⟨l, (hlinks l).mp hl, hr⟩

theorem congr_rel (hW : ∀ x y, W x y ↔ W' x y) (h : Conveys M good exact links next W) :
    Conveys M good exact links next W' := h.congr (fun x y _ => hW x y) fun _ => Iff.rfl

theorem nil : Conveys M good exact [] next fun _ _ => False where
  keeps _ _ _ h := h.elim
  sound _ _ _ _ hl := by cases hl
  complete _ _ _ _ _ _ h := h.elim

theorem cons (h : Conveys M good exact [link] next W) (h' : Conveys M good exact links next W') :
    Conveys M good exact (link :: links) next fun x y => W x y ∨ W' x y where
  keeps x y hx hy := hy.elim (h.keeps x y hx) (h'.keeps x y hx)
  sound n l x e hl hx hr := by
    rcases List.mem_cons.mp hl with rfl | hl
    · obtain ⟨y, n', hle, hy, hr⟩ := h.sound n l x e List.mem_cons_self hx hr
      exact ⟨y, n', hle, .inl hy, hr⟩
    · obtain ⟨y, n', hle, hy, hr⟩ := h'.sound n l x e hl hx hr
      exact ⟨y, n', hle, .inr hy, hr⟩
  complete hs n x y e hx := by
    rintro (hy | hy) hr
    · obtain ⟨l, hl, hr⟩ := h.complete hs n x y e hx hy hr
      exact ⟨l, List.mem_singleton.mp hl ▸ List.mem_cons_self, hr⟩
    · obtain ⟨l, hl, hr⟩ := h'.complete hs n x y e hx hy hr
      exact ⟨l, List.mem_cons_of_mem _ hl, hr⟩

/-- The moves of one operation, each of which is followed by a conveyance of its
own. -/
theorem of_moves {ι : Type} (dest : ι → Link) {R W : ι → X → X → Prop}
    (hsound : ∀ x l y, good x → M k x l y → ∃ c, l = dest c ∧ R c x y)
    (hcomplete : exact = true → ∀ c x y, good x → R c x y → M k x (dest c) y)
    (hkeeps : ∀ c x y, good x → R c x y → good y)
    (h : ∀ c, Conveys M good exact [dest c] next (W c)) :
    Conveys M good exact [some k] next fun x y => ∃ c z, R c x z ∧ W c z y where
  keeps x y hx := by
    rintro ⟨c, z, hz, hy⟩
    exact (h c).keeps z y (hkeeps c x z hx hz) hy
  sound n l x e hl hx hr := by
    obtain rfl := List.mem_singleton.mp hl
    cases hr with
    | @step n _ _ l z _ move rest =>
      obtain ⟨c, rfl, hz⟩ := hsound x l z hx move
      obtain ⟨y, n', hle, hy, hr⟩ :=
        (h c).sound n _ z e List.mem_cons_self (hkeeps c x z hx hz) rest
      exact ⟨y, n', hle.trans (Nat.le_succ n), ⟨c, z, hz, hy⟩, hr⟩
  complete hs n x y e hx := by
    rintro ⟨c, z, hz, hy⟩ hr
    obtain ⟨l, hl, n', hr⟩ := (h c).complete hs n z y e (hkeeps c x z hx hz) hy hr
    obtain rfl := List.mem_singleton.mp hl
    exact ⟨some k, List.mem_cons_self, n' + 1, .step (hcomplete hs c x z hx hz) hr⟩

/-- An operation whose moves lead through a relation to the link that follows. -/
theorem of_next (hsound : ∀ x l y, good x → M k x l y → l = next ∧ W x y)
    (hcomplete : exact = true → ∀ x y, good x → W x y → M k x next y)
    (hkeeps : ∀ x y, good x → W x y → good y) : Conveys M good exact [some k] next W := by
  have h : Conveys M good exact [some k] next fun x y => ∃ (_ : Unit) (z : X), W x z ∧ z = y :=
    of_moves (fun _ => next) (fun x l y hx move => ⟨(), hsound x l y hx move⟩)
      (fun hs _ => hcomplete hs) (fun _ => hkeeps) fun _ => refl
  exact h.congr_rel fun x y => by simp

section

variable (hbranch : M.Branching ops)

include hbranch

/-- An operation that offers a choice. -/
theorem choose (hop : ops[k]? = some op) (hc : op.isChoice = true)
    (h : Conveys M good exact op.branches next W) : Conveys M good exact [some k] next W where
  keeps := h.keeps
  sound n l x e hl hx hr := by
    obtain rfl := List.mem_singleton.mp hl
    cases hr with
    | @step n _ _ l y _ move rest =>
      obtain ⟨hl, rfl⟩ := (hbranch k op x l y hop (by rw [hc]; rfl)).mp move
      obtain ⟨y', n', hle, hy, hr⟩ := h.sound n l y e hl hx rest
      exact ⟨y', n', hle.trans (Nat.le_succ n), hy, hr⟩
  complete hs n x y e hx hy hr := by
    obtain ⟨l, hl, n', hr⟩ := h.complete hs n x y e hx hy hr
    exact ⟨some k, List.mem_cons_self, n' + 1,
      .step ((hbranch k op x l x hop (by rw [hc]; rfl)).mpr ⟨hl, rfl⟩) hr⟩

theorem question {child : Link} {greedy : Bool} (hop : ops[k]? = some (.question child greedy next))
    (h : Conveys M good exact [child] next W) :
    Conveys M good exact [some k] next fun x y => x = y ∨ W x y := by
  refine choose hbranch hop rfl ((h.cons refl).congr (fun x y _ => or_comm) fun l => ?_)
  cases greedy <;> simp [Op.branches, or_comm]

/-- A closure conveys through its body any number of times.  Each path through
the body is shorter than the one before, because a path that never leaves the
closure does not end. -/
theorem loop {id child : ℕ} {greedy : Bool} (hop : ops[k]? = some (.closure id child greedy next))
    (h : Conveys M good exact [some child] (some k) W) :
    Conveys M good exact [some k] next fun x y => ∃ n, Repeats W n x y := by
  have hmoves : ∀ x l y, M k x l y ↔ (l = some child ∨ l = next) ∧ y = x := by
    intro x l y
    rw [hbranch k _ x l y hop rfl]
    cases greedy <;> simp [Op.branches, or_comm]
  refine ⟨fun x y hx => ?_, fun n l x e hl hx hr => ?_, fun hs n x y e hx => ?_⟩
  · rintro ⟨n, hn⟩
    exact hn.keeps h.keeps hx
  · obtain rfl := List.mem_singleton.mp hl
    -- Back at the closure a shorter path is left, but it need not be shorter by one.
    induction n using Nat.strong_induction_on generalizing x with
    | _ n ih =>
      cases hr with
      | @step n _ _ l y _ move rest =>
        obtain ⟨rfl | rfl, rfl⟩ := (hmoves x l y).mp move
        · obtain ⟨z, n', hle, hz, hr⟩ := h.sound n _ y e List.mem_cons_self hx rest
          obtain ⟨y', n'', hle', ⟨q, hq⟩, hr⟩ := ih n' (by omega) z (h.keeps y z hx hz) hr
          exact ⟨y', n'', by omega, ⟨q + 1, z, hz, hq⟩, hr⟩
        · exact ⟨y, n, Nat.le_succ n, ⟨0, rfl⟩, rest⟩
  · rintro ⟨q, hq⟩ hr
    induction q generalizing x with
    | zero =>
      obtain rfl : x = y := hq
      exact ⟨some k, List.mem_cons_self, n + 1, .step ((hmoves x _ x).mpr ⟨.inr rfl, rfl⟩) hr⟩
    | succ q ih =>
      obtain ⟨z, hz, hq⟩ := hq
      obtain ⟨l, hl, n', hr'⟩ := ih z (h.keeps x z hx hz) hq
      obtain rfl := List.mem_singleton.mp hl
      obtain ⟨l, hl, n'', hr''⟩ := h.complete hs n' x z e hx hz hr'
      obtain rfl := List.mem_singleton.mp hl
      exact ⟨some k, List.mem_cons_self, n'' + 1,
        .step ((hmoves x _ x).mpr ⟨.inl rfl, rfl⟩) hr''⟩

end

/-- Nothing can come before an operation that is itself reached at once. -/
theorem ne_none (h : Conveys M good exact [link] (some k) W) (hx : ∃ x, good x) : link ≠ none := by
  rintro rfl
  obtain ⟨x, hx⟩ := hx
  obtain ⟨y, n, hle, -, hr⟩ := h.sound 0 none x x List.mem_cons_self hx .done
  cases hr
  omega

/-- A conveyance to the end of the program leads where the relation says. -/
theorem of_leads {x z : X} {n : ℕ} (h : Conveys M good exact [link] none W) (hx : good x)
    (hr : Leads M n link x z) : W x z := by
  obtain ⟨y, n', -, hy, hr⟩ := h.sound n link x z List.mem_cons_self hx hr
  cases hr
  exact hy

theorem exists_leads {x z : X} (h : Conveys M good exact [link] none W) (hs : exact = true)
    (hx : good x) (hz : W x z) : ∃ n, Leads M n link x z := by
  obtain ⟨l, hl, n, hr⟩ := h.complete hs 0 x z z hx hz .done
  exact ⟨n, List.mem_singleton.mp hl ▸ hr⟩

end Conveys

/-! ### Emitters -/

section

variable {ops : Array Op} {b b₁ b₂ : Builder} {op : Op} {P : Builder → Builder → Op → Prop}

theorem Agrees.left (h : Agrees ops b b₂) (ha : Builder.Added P b₁ b₂) : Agrees ops b b₁ :=
  fun k hk hlt => (h k hk (hlt.trans_le ha.size_le)).trans (ha.keeps k hlt)

theorem Agrees.right (h : Agrees ops b b₂) (ha : Builder.Added P b b₁) : Agrees ops b₁ b₂ :=
  fun k hk hlt => h k (ha.size_le.trans hk) hlt

/-- What was there before the last operation. -/
theorem Agrees.init (h : Agrees ops b (b₁.push op).2) : Agrees ops b b₁ := by
  intro k hk hlt
  rw [h k hk (by simp only [Builder.push, Array.size_push]; omega)]
  simp only [Builder.push, Array.getElem?_push]
  rw [if_neg (by omega)]

theorem Agrees.push (h : Agrees ops b (b.push op).2) : ops[b.ops.size]? = some op := by
  rw [h _ le_rfl (by simp [Builder.push])]
  simp [Builder.push]

/-- What stands at and behind the place of a closure, once its body has been
made. -/
theorem Agrees.closure {op : Op} (h : Agrees ops b (b₁.patch b.ops.size op))
    (ha : Builder.Added P b.reserve b₁) :
    ops[b.ops.size]? = some op ∧ Agrees ops b.reserve b₁ := by
  have hsize : b.ops.size < b₁.ops.size := by
    have := ha.size_le
    simp only [Builder.reserve, Array.size_push] at this
    exact this
  constructor
  · rw [h _ le_rfl (by simpa [Builder.patch] using hsize)]
    simp only [Builder.patch, Array.getElem?_setIfInBounds, if_true, if_pos hsize]
  · intro k hk hlt
    simp only [Builder.reserve, Array.size_push] at hk
    rw [h k (by omega) (by simpa [Builder.patch] using hlt)]
    simp only [Builder.patch, Array.getElem?_setIfInBounds]
    rw [if_neg (by omega)]

end

/-- Whether all that an emitter makes conveys through a relation to the link
that follows, in whatever program the operations come to lie. -/
structure Emitter.Conveys (ops : Array Op) (M : Moves X) (good : X → Prop) (exact : Bool)
    (e : Emitter) (W : X → X → Prop) : Prop where
  grows : e.Grows fun _ _ _ => True
  conveys : ∀ next b, Agrees ops b (e next b).2 →
    Regexp.Conveys M good exact [(e next b).1] next W

namespace Emitter

namespace Conveys

variable {ops : Array Op} {M : Moves X} {good : X → Prop} {exact : Bool} {e e' body : Emitter}
  {W W' : X → X → Prop}

theorem congr (hW : ∀ x y, good x → (W x y ↔ W' x y)) (h : e.Conveys ops M good exact W) :
    e.Conveys ops M good exact W' where
  grows := h.grows
  conveys next b hb := (h.conveys next b hb).congr hW fun _ => Iff.rfl

theorem refl : Conveys ops M good exact (fun next b => (next, b)) (· = ·) where
  grows _ _ S hn := ⟨S, .refl, hn⟩
  conveys _ _ _ := .refl

/-- One emitter in front of another one. -/
theorem seq (h : e.Conveys ops M good exact W) (h' : e'.Conveys ops M good exact W') :
    Conveys ops M good exact (fun next b => e (e' next b).1 (e' next b).2)
      fun x y => ∃ z, W x z ∧ W' z y where
  grows next b S hn := by
    obtain ⟨S₁, h₁, hlink⟩ := h'.grows next b S hn
    obtain ⟨S₂, h₂, hlink'⟩ := h.grows _ _ S₁ hlink
    exact ⟨S₂, h₁.trans h₂, hlink'⟩
  conveys next b hb := by
    have hadded := h.grows.added (e' next b).1 (e' next b).2
    exact (h.conveys _ _ (hb.right (h'.grows.added next b))).trans
      (h'.conveys _ _ (hb.left hadded))

/-- One operation without a body of its own, whose moves lead to the link that
follows. -/
theorem push {op : Link → Op} (hlinks : ∀ next, (op next).links = [next])
    (hbody : ∀ next, (op next).child? = none) (hclosure : ∀ next, (op next).isClosure = false)
    (hmoves : ∀ k next x l y, ops[k]? = some (op next) → good x → (M k x l y ↔ l = next ∧ W x y))
    (hkeeps : ∀ x y, good x → W x y → good y) :
    Conveys ops M good exact (fun next b => b.push (op next)) W where
  grows := push_grows (fun _ _ => trivial) hlinks hbody hclosure
  conveys next b hb := .of_next (fun x l y hx => (hmoves b.ops.size next x l y hb.push hx).mp)
    (fun _ x y hx hy => (hmoves b.ops.size next x next y hb.push hx).mpr ⟨rfl, hy⟩) hkeeps

/-! ### Repetitions -/

theorem copies (h : body.Conveys ops M good exact W) (n : ℕ) :
    (copies body n).Conveys ops M good exact (Repeats W n) := by
  induction n with
  | zero => exact .refl
  | succ n ih => exact (ih.seq h).congr fun x y _ => repeats_succ_right.symm

section

variable (hbranch : M.Branching ops)

include hbranch

theorem closure (hgood : ∃ x, good x) (h : body.Conveys ops M good exact W) (greedy : Bool) :
    (closure body greedy).Conveys ops M good exact fun x y => ∃ n, Repeats W n x y where
  grows := closure_grows h.grows greedy fun _ _ _ _ => trivial
  conveys next b hb := by
    obtain ⟨hop, hagrees⟩ := Agrees.closure hb (h.grows.added (some b.ops.size) b.reserve)
    have hbody := h.conveys (some b.ops.size) b.reserve hagrees
    -- A body without operations would lead back to the closure at once, and so to nowhere.
    obtain ⟨child, hchild⟩ := Option.ne_none_iff_exists'.mp (hbody.ne_none hgood)
    rw [hchild] at hop hbody
    exact .loop hbranch hop hbody

/-- Some optional parts, where the last of them may be followed by a longer way
to the same link. -/
theorem optionals_conveys (h : body.Conveys ops M good exact W) (greedy : Bool) (next : Link)
    (n q : ℕ) (tail : Link) (b : Builder)
    (hb : Agrees ops b (optionals body greedy next n tail b).2)
    (ht : Regexp.Conveys M good exact [tail] next fun x y => ∃ n ≤ q, Repeats W n x y) :
    Regexp.Conveys M good exact [(optionals body greedy next n tail b).1] next
      fun x y => ∃ n' ≤ q + n, Repeats W n' x y := by
  induction n generalizing q tail b with
  | zero => exact ht
  | succ n ih =>
    have hbody := h.grows.added tail b
    have hpush : Builder.Added (fun _ _ _ => True) (body tail b).2
        ((body tail b).2.push (.question (body tail b).1 greedy next)).2 := .push trivial rfl
    have hrest : Builder.Added (fun _ _ _ => True)
        ((body tail b).2.push (.question (body tail b).1 greedy next)).2
        (optionals body greedy next (n + 1) tail b).2 := by
      obtain ⟨S, hgrows, -⟩ := optionals_grows h.grows greedy (fun _ _ => trivial) n
        (some (body tail b).2.ops.size) _ Set.univ (Set.mem_univ next) trivial
      exact hgrows.added
    have hchild := (h.conveys tail b (hb.left hrest).init).trans ht
    have hlink := Regexp.Conveys.question hbranch ((hb.left hrest).right hbody).push hchild
    refine (ih (q + 1) _ _ (hb.right (hbody.trans hpush)) (hlink.congr_rel fun x y => ?_)).congr_rel
      fun x y => by rw [Nat.add_right_comm, Nat.add_assoc]
    constructor
    · rintro (rfl | ⟨z, hz, q', hq, ht⟩)
      · exact ⟨0, Nat.zero_le _, rfl⟩
      · exact ⟨q' + 1, by omega, z, hz, ht⟩
    · rintro ⟨q', hq, ht⟩
      cases q' with
      | zero => exact .inl ht
      | succ q' =>
        obtain ⟨z, hz, ht⟩ := ht
        exact .inr ⟨z, hz, q', by omega, ht⟩

theorem optionals (h : body.Conveys ops M good exact W) (greedy : Bool) (n : ℕ) :
    Conveys ops M good exact (fun next b => optionals body greedy next n next b)
      fun x y => ∃ n' ≤ n, Repeats W n' x y where
  grows next b S hn := optionals_grows h.grows greedy (fun _ _ => trivial) n next b S hn hn
  conveys next b hb := by
    have hzero : Regexp.Conveys M good exact [next] next fun x y => ∃ n ≤ 0, Repeats W n x y :=
      Regexp.Conveys.refl.congr_rel fun x y => by simp [Repeats]
    refine (optionals_conveys hbranch h greedy next n 0 next b hb hzero).congr_rel fun x y => ?_
    rw [Nat.zero_add]

theorem repetition (hgood : ∃ x, good x) (h : body.Conveys ops M good exact W) (min : ℕ)
    (max : Option ℕ) (greedy : Bool) :
    (repetition body min max greedy).Conveys ops M good exact fun x y =>
      ∃ n, min ≤ n ∧ (∀ b, max = some b → n ≤ min ∨ n ≤ b) ∧ Repeats W n x y := by
  have hsum : ∀ {Q : ℕ → Prop} {x y : X},
      (∃ z, Repeats W min x z ∧ ∃ n, Q n ∧ Repeats W n z y) ↔
        ∃ n, Q n ∧ Repeats W (min + n) x y := by
    intro Q x y
    simp only [repeats_add]
    grind
  cases max with
  | none =>
    refine ((h.copies min).seq (h.closure hbranch hgood greedy)).congr fun x y _ => ?_
    have := hsum (Q := fun _ => True) (x := x) (y := y)
    simp only [true_and] at this
    rw [this]
    simp only [reduceCtorEq, false_implies, implies_true, true_and]
    exact ⟨fun ⟨n, h⟩ => ⟨min + n, by omega, h⟩, fun ⟨n, hn, h⟩ => ⟨n - min, by
      rwa [Nat.add_sub_cancel' hn]⟩⟩
  | some max =>
    refine ((h.copies min).seq (h.optionals hbranch greedy (max - min))).congr fun x y _ => ?_
    rw [hsum (Q := fun n => n ≤ max - min)]
    constructor
    · rintro ⟨n, hn, h⟩
      refine ⟨min + n, by omega, fun b hb => ?_, h⟩
      cases hb
      omega
    · rintro ⟨n, hn, hmax, h⟩
      have hle := hmax max rfl
      exact ⟨n - min, by omega, by rwa [Nat.add_sub_cancel' hn]⟩

end

end Conveys

end Emitter

end Regexp
