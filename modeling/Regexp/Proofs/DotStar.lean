import Regexp.Proofs.Outcome

/-!
# Programs that begin with a repetition of any character

If a program begins by reading as many characters as it can, and an attempt from
an offset has failed, then an attempt from the next offset fails as well: what
it would try has been tried.  A search relies on this when it makes attempts at
the starts of lines only.

The attempt that has failed has gone through the next offset with one more mark,
that of the first closure at the offset before.  Marks may change what is found,
so the two explorations are not the same at once; it has to be shown that
nothing looks at this mark.  The first closure lies in no body, and outside of
bodies the text is walked over forward, so the machine never comes back to it at
an offset that has been left behind.  `Explores.erase` says this in general: a
mark can be taken away, before and after, if the exploration only goes on from
offsets behind it.

No assumption is made on the rest of the pattern.  It may have lookbehinds,
references and whatever else makes attempts differ, because what is compared is
one exploration with a part of another one.

## Main statements

* `Explores.erase` — a mark behind which the text is walked over does not
  matter.
* `Attempt.Discovers.failed_next` — a failure at an offset is one at the next
  offset.
-/

namespace Regexp

variable {a : Attempt} {watch : ℕ → Mode → ℕ → Marks → Prop} {top : Bool} {m : Mode}
  {V V' : Marks} {links : List Link} {i j o q : ℕ} {sl : Option Slots} {r : Discovery}
  {own : ℕ → ℕ} {opts : Options}

/-- A mark behind which the text is walked over does not matter. -/
theorem Explores.erase {id owner : ℕ} (hown : a.program.Owned own)
    (hid : ∀ k child greedy next, a.program.ops[k]? = some (.closure id child greedy next) →
      own k = owner)
    (h : Explores a watch top m V links i sl V' r) (hi : a.InSpan i)
    (hlinks : ∀ l ∈ links, LinkIn own o l)
    (hbehind : o < owner ∨ o = owner ∧ m.reverse = false ∧ q < i) :
    Explores a (fun _ _ _ _ => True) top m (V.erase (id, q)) links i sl (V'.erase (id, q)) r := by
  -- A closure that is entered, or entered again, is not the one with the mark.
  have hother : ∀ {k id' child greedy next o i} {m : Mode},
      a.program.ops[k]? = some (.closure id' child greedy next) → own k = o →
        (o < owner ∨ o = owner ∧ m.reverse = false ∧ q < i) → (id', i) ≠ (id, q) := by
    rintro k id' child greedy next o i m hop hk hbehind heq
    obtain ⟨rfl, rfl⟩ := Prod.mk.inj heq
    have := hid k child greedy next hop
    omega
  -- A body belongs to an owner that comes before.
  have hinner : ∀ {k op child o i} {m m' : Mode}, a.program.ops[k]? = some op →
      op.body? m = some (child, m') → own k = o →
        (o < owner ∨ o = owner ∧ m.reverse = false ∧ q < i) →
          (∀ l ∈ [child], LinkIn own k l) ∧ k < owner := by
    intro k op child o i m m' hop hb hk hbehind
    have := hown.lt k op hop
    exact ⟨linksIn_body hown hop hb, by omega⟩
  -- The offset stays behind the mark as long as the owner is that of the closure.
  induction h generalizing o with
  | accept h => exact .accept h
  | short h hne => exact .short h hne
  | read hop hread _ ih =>
    refine .read hop hread
      (ih (o := o) (Attempt.read_inSpan hi hread) (linksIn_links hown hlinks hop) ?_)
    refine hbehind.imp_right fun ⟨ho, hm, hq⟩ => ⟨ho, hm, ?_⟩
    exact hq.trans_le (Attempt.le_of_read hi (hm ▸ hread))
  | unread hop hread => exact .unread hop hread
  | unreadable hop hread => exact .unreadable hop hread
  | choose hop hc _ ih => exact .choose hop hc (ih hi (linksIn_branches hown hlinks hop) hbehind)
  | reenter hop hV =>
    have hk := own_eq_of_links hlinks
    exact .reenter hop (Finset.mem_erase.mpr ⟨hother hop hk hbehind, hV⟩)
  | enter hop hV _ ih =>
    have hk := own_eq_of_links hlinks
    refine .enter hop (fun h => hV (Finset.mem_of_mem_erase h)) ?_
    rw [← Finset.erase_insert_of_ne (hother hop hk hbehind)]
    exact ih hi (linksIn_branches hown hlinks hop) hbehind
  | mark hop _ ih => exact .mark hop (ih hi (linksIn_links hown hlinks hop) hbehind)
  | test hop hg _ ih => exact .test hop hg (ih hi (linksIn_test hown hlinks hop) hbehind)
  | untestable hop hg => exact .untestable hop hg
  | fail hop => exact .fail hop
  | resume hop hb _ hbody hr hgo _ ihb ih =>
    have hk := own_eq_of_links hlinks
    have hj := Lies.of_resume hop hb hr hgo hi (hbody.lies hi)
    obtain ⟨hchild, hlt⟩ := hinner hop hb hk hbehind
    refine .resume hop hb trivial (ihb hi hchild (.inl hlt)) hr hgo
      (ih (o := o) hj.inSpan (linksIn_resume hown hlinks hop hgo) ?_)
    exact hbehind.imp_right fun ⟨ho, hm, hq⟩ => ⟨ho, hm, hq.trans_le (hj.le hm)⟩
  | abandon hop hb _ _ hr hgo ihb =>
    have hk := own_eq_of_links hlinks
    obtain ⟨hchild, hlt⟩ := hinner hop hb hk hbehind
    exact .abandon hop hb trivial (ihb hi hchild (.inl hlt)) hr hgo
  | refuse hop hb _ _ ihb =>
    have hk := own_eq_of_links hlinks
    obtain ⟨hchild, hlt⟩ := hinner hop hb hk hbehind
    exact .refuse hop hb trivial (ihb hi hchild (.inl hlt))
  | nil => exact .nil
  | first _ hr ih => exact .first (ih hi (linksIn_head hlinks) hbehind) hr
  | later _ _ ih ih' =>
    exact .later (ih hi (linksIn_head hlinks) hbehind) (ih' hi (linksIn_tail hlinks) hbehind)

namespace Attempt

/-- The first operations of a program that begins with a repetition of any
character. -/
theorem exists_of_startsWithDotStar {p : Program} (h : p.startsWithDotStar = true) :
    ∃ k id child next, p.start = some k ∧
      p.ops[k]? = some (.closure id child true next) ∧
      p.ops[child]? = some (.atom .dot (some k)) := by
  unfold Program.startsWithDotStar at h
  split at h
  · rename_i id child next hstart
    split at h
    · rename_i next' hdot
      obtain ⟨k, hk, hop⟩ := Option.bind_eq_some_iff.mp hstart
      refine ⟨k, id, child, next, hk, hop, ?_⟩
      rw [hdot, of_decide_eq_true h, hk]
    · cases h
  · cases h

/-- **A failure at an offset is one at the next offset**, if the program begins
with a repetition of any character and the character between the two is one that
it reads. -/
theorem Discovers.failed_next {p : Pattern} {c : Char} (ht : a.OnText)
    (hprogram : a.program = .ofPattern p) (hstar : a.program.startsWithDotStar = true)
    (hi : a.InSpan i) (hchar : a.target.HasChar a.span i c j)
    (hc : opts.singleLine = true ∨ Scalar.isLineTerminator c = false)
    (h : Discovers a opts sl i .failed) : Discovers a opts sl j .failed := by
  obtain ⟨own, hown, -⟩ := Program.exists_owned p
  rw [← hprogram] at hown
  obtain ⟨k, id, child, next, hstart, hclosure, hdot⟩ := exists_of_startsWithDotStar hstar
  have hbounds := hchar.bounds
  obtain ⟨V', h⟩ := h
  rw [hstart] at h
  obtain ⟨hmem, -⟩ | ⟨-, hbranches⟩ := h.of_simple hclosure rfl rfl
  · exact absurd hmem (Finset.notMem_empty _)
  -- The body has been tried first, and it has read the character.
  have hbody : ∃ V₁, Explores a (fun _ _ _ _ => True) true ⟨false, opts⟩ {(id, i)} [some child] i sl
      V₁ .failed := by
    cases hbranches with
    | first _ hne => exact absurd rfl hne
    | later hhead _ => exact ⟨_, hhead⟩
  obtain ⟨V₁, hbody⟩ := hbody
  have hread : a.read .dot opts false i sl = .ok (some j) :=
    (read_dot_iff ht hi).mpr ⟨c, hchar, hc⟩
  obtain ⟨j', hj', hrest⟩ | ⟨hnone, -⟩ | ⟨e, herror, -⟩ := hbody.of_simple hdot rfl rfl
  · cases hread.symm.trans hj'
    refine ⟨V₁.erase (id, i), ?_⟩
    have hid : ∀ k' child' greedy' next',
        a.program.ops[k']? = some (.closure id child' greedy' next') → own k' = own k := by
      intro k' child' greedy' next' hop
      rw [hprogram] at hop hclosure
      rw [Program.closure_unique p hop hclosure]
    have hrest' := hrest.erase (q := i) hown hid ⟨by omega, hbounds.2.2⟩
      (linksIn_singleton (linkIn_some rfl))
      (.inr ⟨rfl, rfl, hbounds.2.1⟩)
    rw [hstart]
    simpa using hrest'
  · cases hread.symm.trans hnone
  · cases hread.symm.trans herror

end Attempt

end Regexp
