/-!
# Two programs, outcome by outcome

A program changes a state and may fail; what it did to the state before it failed stays
(`ExceptT` over `StateM`), unless it is executed `atomically`.  `Related pre x y post fail`
compares two programs over two kinds of state: from states that are related by `pre`, both
return and `post` holds of the results and the states, or both fail and `fail` holds of the
errors and the states.

The rules follow the programs: `pure`, `throw`, `bind`, a `statement` that the state admits or
refuses, and a loop, whose relation may mention what is left of its list.  `Maintains I x` is an
invariant of one program, with the same rules.
-/

namespace Relational

variable {ε ε' σ π α α' β β' γ : Type}

/-- A program with a state of type `σ` that fails with an `ε`. -/
abbrev Program (ε σ α : Type) := ExceptT ε (StateM σ) α

/-- The outcome of a program, and the state it leaves. -/
def exec (x : Program ε σ α) (s : σ) : Except ε α × σ := x s

/-- A statement: the state that it leaves, or `none` where it is refused. -/
def statement (refusal : ε) (f : σ → Option σ) : Program ε σ Unit := fun s =>
  match f s with
  | none => (.error refusal, s)
  | some t => (.ok (), t)

/-- Read the state. -/
def read (f : σ → α) : Program ε σ α := fun s => (.ok (f s), s)

/-- `begin`, the program, and `commit`; or `rollback` where it fails.  Inside a transaction
that is open already it is the program alone. -/
def atomically (inTransaction : Bool) (x : Program ε σ α) : Program ε σ α := fun s =>
  match exec x s with
  | (.ok a, t) => (.ok a, t)
  | (.error e, t) => (.error e, if inTransaction then t else s)

@[simp] theorem exec_pure (a : α) (s : σ) : exec (pure a : Program ε σ α) s = (.ok a, s) := rfl

@[simp] theorem exec_throw (e : ε) (s : σ) :
    exec (throw e : Program ε σ α) s = (.error e, s) := rfl

@[simp] theorem exec_read (f : σ → α) (s : σ) :
    exec (read f : Program ε σ α) s = (.ok (f s), s) := rfl

theorem exec_statement (refusal : ε) (f : σ → Option σ) (s : σ) :
    exec (statement refusal f) s =
      match f s with
      | none => (.error refusal, s)
      | some t => (.ok (), t) := rfl

theorem exec_bind (x : Program ε σ α) (f : α → Program ε σ β) (s : σ) :
    exec (x >>= f) s =
      match exec x s with
      | (.ok a, t) => exec (f a) t
      | (.error e, t) => (.error e, t) := by
  show (match x s with
    | (r, t) => (ExceptT.bindCont f r) t) = _
  unfold exec
  rcases x s with ⟨_ | _, _⟩ <;> rfl

/-- A program that returns has returned from each of its parts. -/
theorem exec_bind_eq_ok {x : Program ε σ α} {f : α → Program ε σ β} {s u : σ} {b : β} :
    exec (x >>= f) s = (.ok b, u) ↔ ∃ a t, exec x s = (.ok a, t) ∧ exec (f a) t = (.ok b, u) := by
  rw [exec_bind]
  rcases exec x s with ⟨e | a, t⟩
  · constructor
    · intro h
      cases h
    · rintro ⟨_, _, h, _⟩
      cases h
  · constructor
    · intro h
      exact ⟨a, t, rfl, h⟩
    · rintro ⟨_, _, h, hrest⟩
      cases h
      exact hrest

theorem exec_atomically (inTransaction : Bool) (x : Program ε σ α) (s : σ) :
    exec (atomically inTransaction x) s =
      match exec x s with
      | (.ok a, t) => (.ok a, t)
      | (.error e, t) => (.error e, if inTransaction then t else s) := rfl

/-- Both programs return, or both fail. -/
def Outcomes (post : α → β → σ → π → Prop) (fail : ε → ε' → σ → π → Prop) :
    Except ε α × σ → Except ε' β × π → Prop
  | (.ok a, s), (.ok b, p) => post a b s p
  | (.error e, s), (.error e', p) => fail e e' s p
  | (.ok _, _), (.error _, _) => False
  | (.error _, _), (.ok _, _) => False

/-- From related states the two programs have related outcomes. -/
def Related (pre : σ → π → Prop) (x : Program ε σ α) (y : Program ε' π β)
    (post : α → β → σ → π → Prop) (fail : ε → ε' → σ → π → Prop) : Prop :=
  ∀ s p, pre s p → Outcomes post fail (exec x s) (exec y p)

variable {pre pre' : σ → π → Prop} {post mid : α → β → σ → π → Prop}
  {fail : ε → ε' → σ → π → Prop} {x : Program ε σ α} {y : Program ε' π β}

theorem Outcomes.mono {post' : α → β → σ → π → Prop} {fail' : ε → ε' → σ → π → Prop}
    (hpost : ∀ a b s p, post a b s p → post' a b s p)
    (hfail : ∀ e e' s p, fail e e' s p → fail' e e' s p) :
    ∀ {o : Except ε α × σ} {o' : Except ε' β × π}, Outcomes post fail o o' →
      Outcomes post' fail' o o'
  | (.ok _, _), (.ok _, _), h => hpost _ _ _ _ h
  | (.error _, _), (.error _, _), h => hfail _ _ _ _ h

theorem Related.mono {post' : α → β → σ → π → Prop} {fail' : ε → ε' → σ → π → Prop}
    (hpre : ∀ s p, pre' s p → pre s p) (hpost : ∀ a b s p, post a b s p → post' a b s p)
    (hfail : ∀ e e' s p, fail e e' s p → fail' e e' s p) (h : Related pre x y post fail) :
    Related pre' x y post' fail' :=
  fun s p hs => (h s p (hpre s p hs)).mono hpost hfail

/-- **Sequencing.** -/
theorem Related.bind {f : α → Program ε σ α'} {g : β → Program ε' π β'}
    {post : α' → β' → σ → π → Prop} (h : Related pre x y mid fail)
    (hfg : ∀ a b, Related (mid a b) (f a) (g b) post fail) :
    Related pre (x >>= f) (y >>= g) post fail := by
  intro s p hs
  have hfirst := h s p hs
  rw [exec_bind, exec_bind]
  revert hfirst
  rcases exec x s with ⟨_ | a, t⟩ <;> rcases exec y p with ⟨_ | b, q⟩ <;> intro hfirst
  · exact hfirst
  · exact hfirst.elim
  · exact hfirst.elim
  · exact hfg a b t q hfirst

theorem Related.pure {a : α} {b : β} (h : ∀ s p, pre s p → post a b s p) :
    Related pre (pure a : Program ε σ α) (pure b : Program ε' π β) post fail :=
  fun s p hs => h s p hs

theorem Related.throw {e : ε} {e' : ε'} (h : ∀ s p, pre s p → fail e e' s p) :
    Related pre (throw e : Program ε σ α) (throw e' : Program ε' π β) post fail :=
  fun s p hs => h s p hs

theorem Related.read {f : σ → α} {g : π → β} (h : ∀ s p, pre s p → mid (f s) (g p) s p) :
    Related pre (Relational.read f) (Relational.read g) mid fail :=
  fun s p hs => h s p hs

/-- What the relation says whatever the states are may be assumed. -/
theorem Related.assume {φ : Prop} (hφ : ∀ s p, pre s p → φ) (h : φ → Related pre x y post fail) :
    Related pre x y post fail :=
  fun s p hs => h (hφ s p hs) s p hs

/-- Two statements that are admitted or refused together. -/
theorem Related.statement {post : Unit → Unit → σ → π → Prop} {refusal : ε} {refusal' : ε'}
    {f : σ → Option σ} {g : π → Option π}
    (h : ∀ s p, pre s p →
      match f s, g p with
      | some t, some q => post () () t q
      | none, none => fail refusal refusal' s p
      | _, _ => False) :
    Related pre (Relational.statement refusal f) (Relational.statement refusal' g) post fail := by
  intro s p hs
  have hboth := h s p hs
  unfold exec Relational.statement
  revert hboth
  rcases f s with _ | t <;> rcases g p with _ | q <;> exact id

/-- **Loops**: the relation may mention what is left of the list. -/
theorem Related.forM {I : List γ → σ → π → Prop} {f : γ → Program ε σ PUnit}
    {g : γ → Program ε' π PUnit}
    (h : ∀ c rest, Related (I (c :: rest)) (f c) (g c) (fun _ _ => I rest) fail) :
    ∀ cs : List γ, Related (I cs) (cs.forM f) (cs.forM g) (fun _ _ => I []) fail
  | [] => Related.pure fun _ _ hs => hs
  | c :: rest => (h c rest).bind fun _ _ => Related.forM h rest

/-- **Transactions**: inside one a failure leaves both states as they are, outside it leaves
them as they were. -/
theorem Outcomes.atomically {inTransaction : Bool} {s : σ} {p : π}
    {inner : ε → ε' → σ → π → Prop} (h : Outcomes post inner (exec x s) (exec y p))
    (hopen : inTransaction → ∀ e e' t q, inner e e' t q → fail e e' t q)
    (hrollback : inTransaction = false → ∀ e e' t q, inner e e' t q → fail e e' s p) :
    Outcomes post fail (exec (Relational.atomically inTransaction x) s)
      (exec (Relational.atomically inTransaction y) p) := by
  rw [exec_atomically, exec_atomically]
  revert h
  rcases exec x s with ⟨e | a, t⟩ <;> rcases exec y p with ⟨e' | b, q⟩ <;> intro h
  · cases inTransaction with
    | true => exact hopen rfl e e' t q h
    | false => exact hrollback rfl e e' t q h
  · exact h.elim
  · exact h.elim
  · exact h

/-- A program that changes nothing before it fails needs no transaction of its own. -/
theorem exec_atomically_of_kept {inTransaction : Bool} {s : σ}
    (h : inTransaction = false → ∀ e t, exec x s = (.error e, t) → t = s) :
    exec (Relational.atomically inTransaction x) s = exec x s := by
  rw [exec_atomically]
  rcases hx : exec x s with ⟨e | a, t⟩
  · cases inTransaction with
    | true => rfl
    | false =>
        obtain rfl : t = s := h rfl e t hx
        rfl
  · rfl

/-! ### Loops of statements -/

/-- Every statement of a loop is admitted in turn. -/
def AllAdmitted (f : γ → σ → Option σ) : List γ → σ → Prop
  | [], _ => True
  | c :: rest, s => ∃ t, f c s = some t ∧ AllAdmitted f rest t

/-- A loop whose statements are all admitted returns. -/
theorem exec_forM_of_allAdmitted {f : γ → σ → Option σ} {refusal : ε} :
    ∀ {cs : List γ} {s : σ}, AllAdmitted f cs s →
      ∃ t, exec (cs.forM fun c => statement refusal (f c)) s = (.ok (), t)
  | [], s, _ => ⟨s, rfl⟩
  | c :: rest, s, ⟨t, hadmit, hrest⟩ => by
      obtain ⟨u, hu⟩ : ∃ u, exec (rest.forM fun c => statement refusal (f c)) t = (.ok (), u) :=
        exec_forM_of_allAdmitted hrest
      refine ⟨u, ?_⟩
      show exec (statement refusal (f c) >>= fun _ =>
        rest.forM fun c => statement refusal (f c)) s = _
      rw [exec_bind, exec_statement, hadmit]
      exact hu

/-- A loop whose first statement is refused changes nothing. -/
theorem exec_forM_of_refused {f : γ → σ → Option σ} {refusal : ε} {c : γ} {rest : List γ} {s : σ}
    (h : f c s = none) :
    exec ((c :: rest).forM fun c => statement refusal (f c)) s = (.error refusal, s) := by
  show exec (statement refusal (f c) >>= fun _ =>
    rest.forM fun c => statement refusal (f c)) s = _
  rw [exec_bind, exec_statement, h]

/-! ### Invariants of one program -/

/-- The program keeps the invariant, whether it returns or fails. -/
def Maintains (I : σ → Prop) (x : Program ε σ α) : Prop := ∀ s, I s → I (exec x s).2

namespace Maintains

variable {I : σ → Prop} {x : Program ε σ α}

theorem pure (a : α) : Maintains I (Pure.pure a : Program ε σ α) := fun _ hs => hs

theorem throw (e : ε) : Maintains I (MonadExcept.throw e : Program ε σ α) := fun _ hs => hs

theorem read (f : σ → α) : Maintains I (Relational.read f : Program ε σ α) := fun _ hs => hs

theorem bind {f : α → Program ε σ β} (h : Maintains I x) (hf : ∀ a, Maintains I (f a)) :
    Maintains I (x >>= f) := by
  intro s hs
  have hfirst := h s hs
  rw [exec_bind]
  revert hfirst
  rcases exec x s with ⟨_ | a, t⟩
  · exact id
  · exact hf a t

theorem statement {refusal : ε} {f : σ → Option σ} (h : ∀ s t, I s → f s = some t → I t) :
    Maintains I (Relational.statement refusal f) := by
  intro s hs
  rw [exec_statement]
  cases hf : f s with
  | none => exact hs
  | some t => exact h s t hs hf

theorem forM {f : γ → Program ε σ PUnit} {cs : List γ} (h : ∀ c ∈ cs, Maintains I (f c)) :
    Maintains I (cs.forM f) := by
  induction cs with
  | nil => exact pure PUnit.unit
  | cons c rest ih =>
      exact bind (h c List.mem_cons_self) fun _ => ih fun c hc => h c (List.mem_cons_of_mem _ hc)

/-- A rollback leads back to a state that has the invariant. -/
theorem atomically {inTransaction : Bool} (h : Maintains I x) :
    Maintains I (Relational.atomically inTransaction x) := by
  intro s hs
  have hinner := h s hs
  rw [exec_atomically]
  revert hinner
  rcases exec x s with ⟨_ | a, t⟩
  · intro hinner
    cases inTransaction with
    | true => exact hinner
    | false => exact hs
  · exact id

end Maintains

end Relational
