import Mathlib.Data.List.Forall2

/-!
# Computations that may fail

When a computation over a list succeeds, and with what result, in terms of the computations on its
items. A search gives the first find and has looked in vain at all items before it
(`findSomeM?_eq_ok_some`); a list of results fails with the first failure (`mapM_eq_error`).
-/

namespace PregroupGrammar.Fallible

variable {ε α β σ : Type}

theorem bind_eq_ok {x : Except ε α} {f : α → Except ε β} {b : β} :
    x >>= f = .ok b ↔ ∃ a, x = .ok a ∧ f a = .ok b := by
  cases x <;> simp [bind, Except.bind]

theorem bind_eq_error {x : Except ε α} {f : α → Except ε β} {e : ε} :
    x >>= f = .error e ↔ x = .error e ∨ ∃ a, x = .ok a ∧ f a = .error e := by
  cases x <;> simp [bind, Except.bind]

theorem map_eq_error {x : Except ε α} {f : α → β} {e : ε} :
    x.map f = .error e ↔ x = .error e := by
  cases x <;> simp [Except.map]

theorem map_eq_ok {x : Except ε α} {f : α → β} {b : β} :
    x.map f = .ok b ↔ ∃ a, x = .ok a ∧ f a = b := by
  cases x <;> simp [Except.map]

theorem mapError_eq_ok {ε' : Type} {x : Except ε α} {f : ε → ε'} {a : α} :
    x.mapError f = .ok a ↔ x = .ok a := by
  cases x <;> simp [Except.mapError]

theorem mapError_eq_error {ε' : Type} {x : Except ε α} {f : ε → ε'} {e : ε'} :
    x.mapError f = .error e ↔ ∃ e', x = .error e' ∧ f e' = e := by
  cases x <;> simp [Except.mapError]

theorem map_eq_bind {x : Except ε α} {f : α → β} : x.map f = x >>= fun a => pure (f a) := by
  cases x <;> rfl

theorem map_map {γ : Type} {x : Except ε α} {f : α → β} {g : β → γ} :
    (x.map f).map g = x.map fun a => g (f a) := by
  cases x <;> rfl

theorem mapError_map {ε' : Type} {x : Except ε α} {f : α → β} {g : ε → ε'} :
    (x.map f).mapError g = (x.mapError g).map f := by
  cases x <;> rfl

/-- The first item that the one condition holds for, with the other one holding for all before it,
is the head of a list or stands in the rest. -/
theorem exists_split_cons {P Q : α → Prop} {a : α} {l : List α} :
    (∃ front x back, a :: l = front ++ x :: back ∧ (∀ y ∈ front, P y) ∧ Q x) ↔
      Q a ∨ P a ∧ ∃ front x back, l = front ++ x :: back ∧ (∀ y ∈ front, P y) ∧ Q x := by
  constructor
  · rintro ⟨_ | ⟨a₁, front⟩, x, back, hl, hP, hQ⟩
    · simp only [List.nil_append, List.cons.injEq] at hl
      exact .inl (hl.1 ▸ hQ)
    · simp only [List.cons_append, List.cons.injEq] at hl
      obtain ⟨ha, hP⟩ := List.forall_mem_cons.1 hP
      exact .inr ⟨hl.1 ▸ ha, front, x, back, hl.2, hP, hQ⟩
  · rintro (hQ | ⟨ha, front, x, back, rfl, hP, hQ⟩)
    · exact ⟨[], a, l, rfl, by simp, hQ⟩
    · exact ⟨a :: front, x, back, rfl, List.forall_mem_cons.2 ⟨ha, hP⟩, hQ⟩

section Fold

variable {step : σ → α → Except ε σ} {P : σ → Prop}

/-- What every step keeps, a fold keeps. -/
theorem foldlM_keeps (hstep : ∀ s a s', P s → step s a = .ok s' → P s') :
    ∀ (l : List α) {s s' : σ}, P s → l.foldlM step s = .ok s' → P s'
  | [], s, s', hs, h => by
    simp only [List.foldlM_nil, pure, Except.pure, Except.ok.injEq] at h
    exact h ▸ hs
  | a :: l, s, s', hs, h => by
    rw [List.foldlM_cons, bind_eq_ok] at h
    obtain ⟨s₁, h₁, h₂⟩ := h
    exact foldlM_keeps hstep l (hstep s a s₁ hs h₁) h₂

/-- A fold succeeds if every step does where what the steps keep holds. -/
theorem foldlM_total :
    ∀ (l : List α) {s : σ}, (∀ s a, P s → a ∈ l → ∃ s', step s a = .ok s' ∧ P s') → P s →
      ∃ s', l.foldlM step s = .ok s' ∧ P s'
  | [], s, _, hs => ⟨s, rfl, hs⟩
  | a :: l, s, hstep, hs => by
    obtain ⟨s₁, h₁, hs₁⟩ := hstep s a hs List.mem_cons_self
    obtain ⟨s₂, h₂, hs₂⟩ :=
      foldlM_total l (fun s a hs ha => hstep s a hs (List.mem_cons_of_mem _ ha)) hs₁
    exact ⟨s₂, by rw [List.foldlM_cons, bind_eq_ok]; exact ⟨s₁, h₁, h₂⟩, hs₂⟩

/-- A fold fails as one of its steps does. -/
theorem foldlM_fails {Q : ε → Prop} (hstep : ∀ s a e, step s a = .error e → Q e) :
    ∀ (l : List α) {s : σ} {e : ε}, l.foldlM step s = .error e → Q e
  | [], s, e, h => by simp [pure, Except.pure] at h
  | a :: l, s, e, h => by
    rw [List.foldlM_cons, bind_eq_error] at h
    rcases h with h | ⟨s₁, -, h⟩
    · exact hstep s a e h
    · exact foldlM_fails hstep l h

end Fold

section Alike

variable {ε' α' β' : Type} {E : ε → ε' → Prop} {R : α → β → Prop} {S : α' → β' → Prop}

/-- Two computations that both succeed, with related results, or both fail, with related errors. -/
inductive Alike (E : ε → ε' → Prop) (R : α → β → Prop) : Except ε α → Except ε' β → Prop
  | ok {a : α} {b : β} (h : R a b) : Alike E R (.ok a) (.ok b)
  | error {e : ε} {e' : ε'} (h : E e e') : Alike E R (.error e) (.error e')

theorem Alike.bind {x : Except ε α} {y : Except ε' β} {f : α → Except ε α'} {k : β → Except ε' β'}
    (h : Alike E R x y) (hf : ∀ a b, R a b → Alike E S (f a) (k b)) :
    Alike E S (x >>= f) (y >>= k) := by
  cases h with
  | ok h => exact hf _ _ h
  | error h => exact .error h

theorem Alike.exists_ok {a : α} {y : Except ε' β} (h : Alike E R (.ok a) y) :
    ∃ b, y = .ok b ∧ R a b := by
  cases h with
  | ok h => exact ⟨_, rfl, h⟩

theorem Alike.mapError {ε'' : Type} {x : Except ε α} {y : Except ε β} (h : Alike Eq R x y)
    (f : ε → ε'') : Alike Eq R (x.mapError f) (y.mapError f) := by
  cases h with
  | ok h => exact .ok h
  | error h => exact .error (congrArg f h)

theorem Alike.eq {x y : Except ε α} (h : Alike Eq Eq x y) : x = y := by
  cases h with
  | ok h => exact congrArg Except.ok h
  | error h => exact congrArg Except.error h

/-- Two folds over the same items are alike if each of their steps is. -/
theorem Alike.foldlM {γ : Type} {step : α → γ → Except ε α} {step' : β → γ → Except ε' β}
    (hstep : ∀ a b c, R a b → Alike E R (step a c) (step' b c)) :
    ∀ (l : List γ) {a : α} {b : β}, R a b → Alike E R (l.foldlM step a) (l.foldlM step' b)
  | [], _, _, h => .ok h
  | c :: l, a, b, h => by
    rw [List.foldlM_cons, List.foldlM_cons]
    exact (hstep a b c h).bind fun _ _ h' => Alike.foldlM hstep l h'

end Alike

section Search

variable {f : α → Except ε (Option β)}

theorem findSomeM?_cons_none {a : α} {l : List α} (h : f a = .ok none) :
    (a :: l).findSomeM? f = l.findSomeM? f := by
  rw [List.findSomeM?_cons, h]
  rfl

theorem findSomeM?_cons_some {a : α} {l : List α} {b : β} (h : f a = .ok (some b)) :
    (a :: l).findSomeM? f = .ok (some b) := by
  rw [List.findSomeM?_cons, h]
  rfl

theorem findSomeM?_cons_error {a : α} {l : List α} {e : ε} (h : f a = .error e) :
    (a :: l).findSomeM? f = .error e := by
  rw [List.findSomeM?_cons, h]
  rfl

theorem findSomeM?_eq_ok_none : ∀ {l : List α},
    l.findSomeM? f = .ok none ↔ ∀ a ∈ l, f a = .ok none
  | [] => by simp [pure, Except.pure]
  | a :: l => by
    rw [List.forall_mem_cons]
    rcases h : f a with e | _ | b
    · rw [findSomeM?_cons_error h]
      simp
    · rw [findSomeM?_cons_none h, findSomeM?_eq_ok_none]
      simp
    · rw [findSomeM?_cons_some h]
      simp

theorem findSomeM?_eq_ok_some {b : β} : ∀ {l : List α},
    l.findSomeM? f = .ok (some b) ↔
      ∃ front a back, l = front ++ a :: back ∧ (∀ a' ∈ front, f a' = .ok none) ∧
        f a = .ok (some b)
  | [] => by simp [pure, Except.pure]
  | a :: l => by
    rw [exists_split_cons]
    rcases h : f a with e | _ | b'
    · rw [findSomeM?_cons_error h]
      simp
    · rw [findSomeM?_cons_none h, findSomeM?_eq_ok_some]
      simp
    · rw [findSomeM?_cons_some h]
      simp

theorem findSomeM?_total : ∀ {l : List α}, (∀ a ∈ l, ∃ r, f a = .ok r) →
    ∃ r, l.findSomeM? f = .ok r
  | [], _ => ⟨none, rfl⟩
  | a :: l, hall => by
    obtain ⟨ha, hl⟩ := List.forall_mem_cons.1 hall
    obtain ⟨_ | b, hr⟩ := ha
    · rw [findSomeM?_cons_none hr]
      exact findSomeM?_total hl
    · exact ⟨some b, findSomeM?_cons_some hr⟩

theorem findSomeM?_congr {f' : α → Except ε (Option β)} :
    ∀ {l : List α}, (∀ a ∈ l, f a = f' a) → l.findSomeM? f = l.findSomeM? f'
  | [], _ => rfl
  | a :: l, h => by
    obtain ⟨ha, hl⟩ := List.forall_mem_cons.1 h
    rw [List.findSomeM?_cons, List.findSomeM?_cons, ha, findSomeM?_congr hl]

/-- Items that give nothing can be left out of a search. -/
theorem findSomeM?_filter {keep : α → Bool} :
    ∀ {l : List α}, (∀ a ∈ l, keep a = false → f a = .ok none) →
      (l.filter keep).findSomeM? f = l.findSomeM? f
  | [], _ => rfl
  | a :: l, h => by
    obtain ⟨ha, hl⟩ := List.forall_mem_cons.1 h
    rcases hk : keep a
    · rw [List.filter_cons_of_neg (by simp [hk]), findSomeM?_cons_none (ha hk),
        findSomeM?_filter hl]
    · rw [List.filter_cons_of_pos hk, List.findSomeM?_cons, List.findSomeM?_cons,
        findSomeM?_filter hl]

/-- An ordered search tells at which index it succeeds, and that it did not before. -/
theorem findSomeM?_zipIdx_eq_ok_some {f : α × Nat → Except ε (Option β)} {l : List α} {b : β}
    (h : l.zipIdx.findSomeM? f = .ok (some b)) :
    ∃ i a, l[i]? = some a ∧ f (a, i) = .ok (some b) ∧
      ∀ j < i, ∀ a', l[j]? = some a' → f (a', j) = .ok none := by
  obtain ⟨front, ⟨a, i⟩, back, hsplit, hnone, hsome⟩ := findSomeM?_eq_ok_some.1 h
  obtain ⟨front', rest, rfl, hfront, hrest⟩ := List.zipIdx_eq_append_iff.1 hsplit
  obtain ⟨a₁, back', rfl, ha, -⟩ := List.zipIdx_eq_cons_iff.1 hrest.symm
  simp only [Nat.zero_add, Prod.mk.injEq] at ha
  obtain ⟨rfl, rfl⟩ := ha
  refine ⟨front'.length, a, by simp, hsome, fun j hj a' ha' => ?_⟩
  rw [List.getElem?_append_left hj] at ha'
  exact hnone (a', j) (hfront ▸ List.mk_mem_zipIdx_iff_getElem?.2 ha')

end Search

section Select

theorem filterAuxM_eq {f : α → Except ε Bool} {keep : α → Bool} :
    ∀ (l acc : List α), (∀ a ∈ l, f a = .ok (keep a)) →
      l.filterAuxM f acc = .ok ((l.filter keep).reverse ++ acc)
  | [], acc, _ => rfl
  | a :: l, acc, h => by
    obtain ⟨ha, hl⟩ := List.forall_mem_cons.1 h
    rw [List.filterAuxM, ha]
    change l.filterAuxM f (cond (keep a) (a :: acc) acc) = _
    rw [filterAuxM_eq l _ hl]
    rcases hk : keep a <;> simp [hk]

theorem filterM_eq {f : α → Except ε Bool} {keep : α → Bool} {l : List α}
    (h : ∀ a ∈ l, f a = .ok (keep a)) : l.filterM f = .ok (l.filter keep) := by
  rw [List.filterM, filterAuxM_eq l [] h]
  change Except.ok _ = _
  rw [List.append_nil, List.reverse_reverse]

theorem filterMapM_loop_eq {f : α → Except ε (Option β)} {pick : α → Option β} :
    ∀ (l : List α) (acc : List β), (∀ a ∈ l, f a = .ok (pick a)) →
      List.filterMapM.loop f l acc = .ok (acc.reverse ++ l.filterMap pick)
  | [], acc, _ => by simp [List.filterMapM.loop, pure, Except.pure]
  | a :: l, acc, h => by
    obtain ⟨ha, hl⟩ := List.forall_mem_cons.1 h
    rw [List.filterMapM.loop, ha]
    rcases hp : pick a with _ | b
    · change List.filterMapM.loop f l acc = _
      rw [filterMapM_loop_eq l acc hl, List.filterMap_cons_none hp]
    · change List.filterMapM.loop f l (b :: acc) = _
      rw [filterMapM_loop_eq l _ hl, List.filterMap_cons_some hp]
      simp

theorem filterMapM_eq {f : α → Except ε (Option β)} {pick : α → Option β} {l : List α}
    (h : ∀ a ∈ l, f a = .ok (pick a)) : l.filterMapM f = .ok (l.filterMap pick) :=
  filterMapM_loop_eq l [] h

theorem filterMapM_loop_total {f : α → Except ε (Option β)} :
    ∀ (l : List α) {acc bs : List β}, List.filterMapM.loop f l acc = .ok bs →
      ∀ a ∈ l, ∃ b, f a = .ok b
  | [], _, _, _ => by simp
  | a :: l, acc, bs, h => by
    rw [List.filterMapM.loop, bind_eq_ok] at h
    obtain ⟨b, hb, h⟩ := h
    refine List.forall_mem_cons.2 ⟨⟨b, hb⟩, ?_⟩
    cases b <;> exact filterMapM_loop_total l h

/-- A selection that succeeds has succeeded on every item. -/
theorem filterMapM_eq_ok {f : α → Except ε (Option β)} {l : List α} {bs : List β}
    (h : l.filterMapM f = .ok bs) :
    ∃ pick : α → Option β, (∀ a ∈ l, f a = .ok (pick a)) ∧ bs = l.filterMap pick := by
  have hpick : ∀ a ∈ l, f a = .ok (match f a with | .ok b => b | .error _ => none) := by
    intro a ha
    obtain ⟨b, hb⟩ := filterMapM_loop_total l h a ha
    rw [hb]
  exact ⟨_, hpick, Except.ok.inj (h.symm.trans (filterMapM_eq hpick))⟩

end Select

section Each

theorem exists_mem_of_forall₂ {R : α → β → Prop} : ∀ {l : List α} {l' : List β},
    List.Forall₂ R l l' → ∀ {a}, a ∈ l → ∃ b ∈ l', R a b
  | [], _, .nil, a, ha => by simp at ha
  | a₁ :: l, b :: l', .cons hab h, a, ha => by
    rcases List.mem_cons.1 ha with rfl | ha
    · exact ⟨b, List.mem_cons_self, hab⟩
    · obtain ⟨b', hb', hab'⟩ := exists_mem_of_forall₂ h ha
      exact ⟨b', List.mem_cons_of_mem _ hb', hab'⟩

variable {f : α → Except ε β}

theorem mapM_cons_ok {a : α} {l : List α} {b : β} (h : f a = .ok b) :
    (a :: l).mapM f = (l.mapM f).map (b :: ·) := by
  rw [List.mapM_cons, h]
  rfl

theorem mapM_cons_error {a : α} {l : List α} {e : ε} (h : f a = .error e) :
    (a :: l).mapM f = .error e := by
  rw [List.mapM_cons, h]
  rfl

theorem mapM_eq_ok : ∀ {l : List α} {bs : List β},
    l.mapM f = .ok bs ↔ List.Forall₂ (fun a b => f a = .ok b) l bs
  | [], bs => by
    rw [List.mapM_nil, List.forall₂_nil_left_iff]
    simp only [pure, Except.pure, Except.ok.injEq]
    exact eq_comm
  | a :: l, bs => by
    rw [List.forall₂_cons_left_iff]
    rcases h : f a with e | b
    · rw [mapM_cons_error h]
      simp
    · rw [mapM_cons_ok h, map_eq_ok]
      constructor
      · rintro ⟨bs', hbs, rfl⟩
        exact ⟨b, bs', rfl, mapM_eq_ok.1 hbs, rfl⟩
      · rintro ⟨b', bs', hb, hbs, rfl⟩
        simp only [Except.ok.injEq] at hb
        exact ⟨bs', mapM_eq_ok.2 hbs, by rw [hb]⟩

theorem mapM_eq_error {e : ε} : ∀ {l : List α},
    l.mapM f = .error e ↔
      ∃ front a back, l = front ++ a :: back ∧ (∀ a' ∈ front, ∃ b, f a' = .ok b) ∧ f a = .error e
  | [] => by simp [pure, Except.pure]
  | a :: l => by
    rw [exists_split_cons]
    rcases h : f a with e' | b
    · rw [mapM_cons_error h]
      simp
    · have hmap : (a :: l).mapM f = .error e ↔ l.mapM f = .error e := by
        rw [mapM_cons_ok h]
        rcases l.mapM f with e' | bs <;> simp [Except.map]
      rw [hmap, mapM_eq_error]
      simp

theorem mapM_total {l : List α} (h : ∀ a ∈ l, ∃ b, f a = .ok b) : ∃ bs, l.mapM f = .ok bs := by
  rcases hl : l.mapM f with e | bs
  · obtain ⟨front, a, back, rfl, -, ha⟩ := mapM_eq_error.1 hl
    obtain ⟨b, hb⟩ := h a (by simp)
    simp [hb] at ha
  · exact ⟨bs, rfl⟩

end Each

end PregroupGrammar.Fallible
