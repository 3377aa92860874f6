import Mathlib
import Docmark.Rewrite.Basic

/-!
# Outcomes of steps

How the outcome of a composed step comes from the outcomes of its parts: for steps that may fail,
for actions on a state, whose value has a property in whatever state they start (`Yields`), and for
the steps of a build, which do both (`Succeeds`).  What a step of a build reports is bounded from
below (`Reports`) and from above (`ReportsOnly`).
-/

namespace Docmark

/-! ## Steps that may fail -/

/-- A mapped step that succeeds maps what the step yields. -/
lemma exists_of_map_ok {α β ε : Type} {x : Except ε α} {f : α → β} {b : β}
    (h : x.map f = .ok b) : ∃ a, x = .ok a ∧ f a = b := by
  cases x with
  | error e => cases h
  | ok a => exact ⟨a, rfl, Except.ok.inj h⟩

/-- Two steps that succeed one after the other succeed each. -/
lemma exists_of_bind_ok {α β ε : Type} {x : Except ε α} {f : α → Except ε β} {b : β}
    (h : x >>= f = .ok b) : ∃ a, x = .ok a ∧ f a = .ok b := by
  cases x with
  | error e => cases h
  | ok a => exact ⟨a, rfl, h⟩

/-- Steps that succeed one after the other yield one value each. -/
lemma forall₂_of_mapM_ok {α β ε : Type} {f : α → Except ε β} {as : List α} {bs : List β}
    (h : as.mapM f = .ok bs) : List.Forall₂ (fun a b => f a = .ok b) as bs := by
  induction as generalizing bs with
  | nil =>
    cases h
    exact .nil
  | cons a as ih =>
    rw [List.mapM_cons] at h
    obtain ⟨b, hb, h⟩ := exists_of_bind_ok h
    obtain ⟨bs', hbs, h⟩ := exists_of_bind_ok h
    cases h
    exact .cons hb (ih hbs)

lemma exists_of_mem_forall₂ {α β : Type} {R : α → β → Prop} {as : List α} {bs : List β}
    (h : List.Forall₂ R as bs) : ∀ b ∈ bs, ∃ a ∈ as, R a b := by
  induction h with
  | nil => simp
  | cons hab _ ih =>
    intro d hd
    rcases List.mem_cons.1 hd with rfl | hd
    · exact ⟨_, List.mem_cons_self, hab⟩
    · obtain ⟨a, ha, had⟩ := ih d hd
      exact ⟨a, List.mem_cons_of_mem _ ha, had⟩

/-- A list of steps succeeds if each of them does, and yields what each of them yields. -/
lemma exists_mapM_forall₂ {α β ε : Type} {f : α → Except ε β} {R : α → β → Prop} (as : List α)
    (h : ∀ a ∈ as, ∃ b, f a = .ok b ∧ R a b) :
    ∃ bs, as.mapM f = .ok bs ∧ List.Forall₂ R as bs := by
  induction as with
  | nil => exact ⟨[], rfl, .nil⟩
  | cons a as ih =>
    obtain ⟨b, hb, hR⟩ := h a List.mem_cons_self
    obtain ⟨bs, hbs, hRs⟩ := ih fun a' ha' => h a' (List.mem_cons_of_mem _ ha')
    refine ⟨b :: bs, ?_, .cons hR hRs⟩
    rw [List.mapM_cons, hb, hbs]
    rfl

lemma exists_mapM_ok {α β ε : Type} {f : α → Except ε β} (as : List α)
    (h : ∀ a ∈ as, ∃ b, f a = .ok b) : ∃ bs, as.mapM f = .ok bs := by
  obtain ⟨bs, hbs, -⟩ := exists_mapM_forall₂ (R := fun _ _ => True) as
    fun a ha => (h a ha).imp fun _ hb => ⟨hb, trivial⟩
  exact ⟨bs, hbs⟩

/-- Steps that agree element by element make the same of a list. -/
lemma mapM_congr {α β ε : Type} {f g : α → Except ε β} {as : List α} (h : ∀ a ∈ as, f a = g a) :
    as.mapM f = as.mapM g := by
  induction as with
  | nil => rfl
  | cons a as ih =>
    rw [List.mapM_cons, List.mapM_cons, h a List.mem_cons_self,
      ih fun a' ha' => h a' (List.mem_cons_of_mem _ ha')]

/-- A list of steps with one more at its end. -/
lemma mapM_concat {α β ε : Type} {f : α → Except ε β} {as : List α} {a : α} {bs : List β} {b : β}
    (hbs : as.mapM f = .ok bs) (hb : f a = .ok b) : (as ++ [a]).mapM f = .ok (bs ++ [b]) := by
  rw [List.mapM_append, hbs, List.mapM_cons, hb]
  rfl

/-- What each step of a fold keeps, the fold keeps. -/
lemma foldlM_ok_induction {α β ε : Type} {I : β → Prop} {f : β → α → Except ε β} {as : List α}
    (hf : ∀ a ∈ as, ∀ b b', I b → f b a = .ok b' → I b') {b b' : β} (hb : I b)
    (h : as.foldlM f b = .ok b') : I b' := by
  induction as generalizing b with
  | nil =>
    cases h
    exact hb
  | cons a as ih =>
    rw [List.foldlM_cons] at h
    obtain ⟨c, hc, h⟩ := exists_of_bind_ok h
    exact ih (fun a' ha' => hf a' (List.mem_cons_of_mem _ ha'))
      (hf a List.mem_cons_self b c hb hc) h

/-! ## Values of actions -/

section Yields

variable {S α β : Type}

/-- Whatever state an action starts in, its value has a property. -/
def Yields (a : StateM S α) (Q : α → Prop) : Prop := ∀ s, Q (a s).1

lemma Yields.pure {Q : α → Prop} {x : α} (h : Q x) : Yields (Pure.pure x : StateM S α) Q :=
  fun _ => h

lemma Yields.bind {Q : α → Prop} {R : β → Prop} {a : StateM S α} {f : α → StateM S β}
    (ha : Yields a Q) (hf : ∀ x, Q x → Yields (f x) R) : Yields (a >>= f) R :=
  fun s => hf _ (ha s) _

lemma Yields.map {Q : α → Prop} {R : β → Prop} {a : StateM S α} {f : α → β}
    (ha : Yields a Q) (hf : ∀ x, Q x → R (f x)) : Yields (f <$> a) R :=
  fun s => hf _ (ha s)

lemma Yields.mapM {R : α → β → Prop} {f : α → StateM S β} (as : List α)
    (h : ∀ a ∈ as, Yields (f a) (R a)) : Yields (as.mapM f) (List.Forall₂ R as) := by
  induction as with
  | nil => exact Yields.pure .nil
  | cons a as ih =>
    rw [List.mapM_cons]
    refine Yields.bind (h a List.mem_cons_self) fun b hb => ?_
    refine Yields.bind (ih fun a' ha' => h a' (List.mem_cons_of_mem _ ha')) fun bs hbs => ?_
    exact Yields.pure (.cons hb hbs)

end Yields

/-! ## Steps of a build -/

section Build

variable {α β : Type}

/-- A step that goes on from what a step yields. -/
lemma run_bind_of_ok {S : Type} {a : ExceptT Fault (StateM S) α}
    {f : α → ExceptT Fault (StateM S) β} {s s' : S} {x : α} (h : a s = (.ok x, s')) :
    (a >>= f) s = f x s' := by
  show ExceptT.bindCont f (a s).1 (a s).2 = f x s'
  rw [h]
  rfl

/-- A composed step fails where its first part does. -/
lemma run_bind_of_error {S : Type} {a : ExceptT Fault (StateM S) α}
    {f : α → ExceptT Fault (StateM S) β} {s s' : S} {e : Fault} (h : a s = (.error e, s')) :
    (a >>= f) s = (.error e, s') := by
  show ExceptT.bindCont f (a s).1 (a s).2 = (.error e, s')
  rw [h]
  rfl

lemma map_run (f : α → β) (a : BuildM α) (j : Journal) :
    (f <$> a) j = ((a j).1.map f, (a j).2) := by
  rw [map_eq_pure_bind]
  show ExceptT.bindCont (fun x => (pure (f x) : BuildM β)) (a j).1 (a j).2 = _
  cases (a j).1 <;> rfl

/-- A composed step that succeeds is two steps that succeed, whatever state they change. -/
lemma exists_of_bind_run {S : Type} {a : ExceptT Fault (StateM S) α}
    {f : α → ExceptT Fault (StateM S) β} {s s' : S} {y : β} (h : (a >>= f) s = (.ok y, s')) :
    ∃ x k, a s = (.ok x, k) ∧ f x k = (.ok y, s') := by
  have hstep : (a >>= f) s = ExceptT.bindCont f (a s).1 (a s).2 := rfl
  cases hx : (a s).1 with
  | error e =>
    rw [hstep, hx] at h
    cases h
  | ok x =>
    rw [hstep, hx] at h
    exact ⟨x, (a s).2, Prod.ext hx rfl, h⟩

/-- Steps that go on alike from what a step yields. -/
lemma bind_congr_build {a : BuildM α} {f g : α → BuildM β}
    (h : ∀ j x, (a j).1 = .ok x → f x = g x) : a >>= f = a >>= g := by
  funext j
  show ExceptT.bindCont f (a j).1 (a j).2 = ExceptT.bindCont g (a j).1 (a j).2
  cases hx : (a j).1 with
  | error e => rfl
  | ok x => simp only [ExceptT.bindCont, h j x hx]

end Build

/-- A step of a build that succeeds, whatever was recorded before, with a value that has a
property. -/
def Succeeds {α : Type} (a : BuildM α) (Q : α → Prop) : Prop :=
  Yields (S := Journal) a fun r => ∃ x, r = .ok x ∧ Q x

section Succeeds

variable {α β : Type}

lemma Succeeds.pure {Q : α → Prop} {x : α} (h : Q x) : Succeeds (Pure.pure x) Q :=
  fun _ => ⟨x, rfl, h⟩

/-- What succeeds without a journal succeeds with any. -/
lemma Succeeds.lift {Q : α → Prop} {r : Except Fault α} {x : α} (hr : r = .ok x) (h : Q x) :
    Succeeds (r : BuildM α) Q := by
  subst hr
  exact fun _ => ⟨x, rfl, h⟩

lemma Succeeds.bind {Q : α → Prop} {R : β → Prop} {a : BuildM α} {f : α → BuildM β}
    (ha : Succeeds a Q) (hf : ∀ x, Q x → Succeeds (f x) R) : Succeeds (a >>= f) R := by
  intro j
  obtain ⟨x, hx, hQ⟩ := ha j
  obtain ⟨y, hy, hR⟩ := hf x hQ (a j).2
  refine ⟨y, ?_, hR⟩
  rw [run_bind_of_ok (Prod.ext hx rfl), hy]

lemma Succeeds.imp {Q R : α → Prop} {a : BuildM α} (ha : Succeeds a Q) (h : ∀ x, Q x → R x) :
    Succeeds a R := by
  intro j
  obtain ⟨x, hx, hQ⟩ := ha j
  exact ⟨x, hx, h x hQ⟩

lemma Succeeds.and {Q R : α → Prop} {a : BuildM α} (hQ : Succeeds a Q) (hR : Succeeds a R) :
    Succeeds a fun x => Q x ∧ R x := by
  intro j
  obtain ⟨x, hx, hQ⟩ := hQ j
  obtain ⟨y, hy, hR⟩ := hR j
  rw [hx] at hy
  cases hy
  exact ⟨x, hx, hQ, hR⟩

lemma Succeeds.mapM {R : α → β → Prop} {f : α → BuildM β} (as : List α)
    (h : ∀ a ∈ as, Succeeds (f a) (R a)) : Succeeds (as.mapM f) (List.Forall₂ R as) := by
  induction as with
  | nil => exact Succeeds.pure .nil
  | cons a as ih =>
    rw [List.mapM_cons]
    refine Succeeds.bind (h a List.mem_cons_self) fun b hb => ?_
    refine Succeeds.bind (ih fun a' ha' => h a' (List.mem_cons_of_mem _ ha')) fun bs hbs => ?_
    exact Succeeds.pure (.cons hb hbs)

end Succeeds

/-! ## Steps that report -/

/-- A step of a build that succeeds with a value that has a property, and leaves a journal with all
earlier diagnostics and with those in `D`. -/
def Reports {α : Type} (a : BuildM α) (Q : α → Prop) (D : Set Diagnostic) : Prop :=
  ∀ j, ∃ x, (a j).1 = .ok x ∧ Q x ∧
    ∀ d, d ∈ j.diagnostics ∨ d ∈ D → d ∈ (a j).2.diagnostics

section Reports

variable {α β : Type}

lemma Reports.pure {Q : α → Prop} {x : α} (h : Q x) : Reports (Pure.pure x) Q ∅ :=
  fun _ => ⟨x, rfl, h, fun _ hd => hd.resolve_right (Set.notMem_empty _)⟩

lemma Reports.imp {Q R : α → Prop} {D E : Set Diagnostic} {a : BuildM α} (ha : Reports a Q D)
    (h : ∀ x, Q x → R x) (hsub : E ⊆ D) : Reports a R E := by
  intro j
  obtain ⟨x, hx, hQ, hD⟩ := ha j
  exact ⟨x, hx, h x hQ, fun d hd => hD d (hd.imp_right fun hE => hsub hE)⟩

lemma Reports.bind {Q : α → Prop} {R : β → Prop} {D E : Set Diagnostic} {a : BuildM α}
    {f : α → BuildM β} (ha : Reports a Q D) (hf : ∀ x, Q x → Reports (f x) R E) :
    Reports (a >>= f) R (D ∪ E) := by
  intro j
  obtain ⟨x, hx, hQ, hD⟩ := ha j
  obtain ⟨y, hy, hR, hE⟩ := hf x hQ (a j).2
  rw [run_bind_of_ok (Prod.ext hx rfl)]
  refine ⟨y, hy, hR, fun d hd => hE d ?_⟩
  rcases hd with hd | hd | hd
  · exact .inl (hD d (.inl hd))
  · exact .inl (hD d (.inr hd))
  · exact .inr hd

lemma Reports.mapM {R : α → β → Prop} {D : α → Set Diagnostic} {f : α → BuildM β} (as : List α)
    (h : ∀ a ∈ as, Reports (f a) (R a) (D a)) :
    Reports (as.mapM f) (List.Forall₂ R as) {d | ∃ a ∈ as, d ∈ D a} := by
  induction as with
  | nil => exact (Reports.pure .nil).imp (fun _ h => h) (by simp)
  | cons a as ih =>
    rw [List.mapM_cons]
    have hrest := ih fun a' ha' => h a' (List.mem_cons_of_mem _ ha')
    have hall : Reports (f a >>= fun b => as.mapM f >>= fun bs => Pure.pure (b :: bs))
        (List.Forall₂ R (a :: as)) (D a ∪ ({d | ∃ a ∈ as, d ∈ D a} ∪ ∅)) :=
      (h a List.mem_cons_self).bind fun b hb =>
        hrest.bind fun bs hbs => Reports.pure (.cons hb hbs)
    refine hall.imp (fun _ h => h) ?_
    rintro d ⟨a', ha', hd⟩
    rcases List.mem_cons.1 ha' with rfl | ha'
    · exact .inl hd
    · exact .inr (.inl ⟨a', ha', hd⟩)

end Reports

/-- A step of a build whose value has a property if it succeeds, and which adds diagnostics in `D`
only. -/
def ReportsOnly {α : Type} (a : BuildM α) (Q : α → Prop) (D : Set Diagnostic) : Prop :=
  ∀ j, (∀ x, (a j).1 = .ok x → Q x) ∧ ∀ d ∈ (a j).2.diagnostics, d ∈ j.diagnostics ∨ d ∈ D

section ReportsOnly

variable {α β : Type} {D : Set Diagnostic}

lemma ReportsOnly.pure {Q : α → Prop} {x : α} (h : Q x) : ReportsOnly (Pure.pure x) Q D :=
  fun _ => ⟨fun _ hx => Except.ok.inj hx ▸ h, fun _ hd => .inl hd⟩

lemma ReportsOnly.bind {Q : α → Prop} {R : β → Prop} {a : BuildM α} {f : α → BuildM β}
    (ha : ReportsOnly a Q D) (hf : ∀ x, Q x → ReportsOnly (f x) R D) :
    ReportsOnly (a >>= f) R D := by
  intro j
  obtain ⟨hQ, hD⟩ := ha j
  have hstep : (a >>= f) j = ExceptT.bindCont f (a j).1 (a j).2 := rfl
  cases hx : (a j).1 with
  | error e =>
    have herror : (a >>= f) j = (.error e, (a j).2) := by
      rw [hstep, hx]
      rfl
    rw [herror]
    exact ⟨fun _ hy => (nomatch hy), hD⟩
  | ok x =>
    have hok : (a >>= f) j = f x (a j).2 := by
      rw [hstep, hx]
      rfl
    obtain ⟨hR, hE⟩ := hf x (hQ x hx) (a j).2
    rw [hok]
    exact ⟨hR, fun d hd => (hE d hd).elim (hD d) .inr⟩

lemma ReportsOnly.mono {Q : α → Prop} {E : Set Diagnostic} {a : BuildM α} (ha : ReportsOnly a Q D)
    (hsub : D ⊆ E) : ReportsOnly a Q E :=
  fun j => ⟨(ha j).1, fun d hd => ((ha j).2 d hd).imp_right fun hD => hsub hD⟩

end ReportsOnly

end Docmark
