import N8n.Library.Fallible

/-!
# Loops that push

A loop that pushes what its calls return, and stops where one of them fails. If it succeeds does not
depend on how the calls are grouped.
-/

namespace Fallible

variable {ε ε' α β γ : Type}

/-- What a loop has pushed at its end. -/
def collect (f : α → Except ε (List β)) : List α → Except ε (List β)
  | [] => .ok []
  | x :: xs => f x >>= fun ys => (collect f xs).map (ys ++ ·)

theorem collect_congr {f g : α → Except ε (List β)} : ∀ {xs : List α}, (∀ x ∈ xs, f x = g x) →
    collect f xs = collect g xs
  | [], _ => rfl
  | x :: xs, h => by
    rw [List.forall_mem_cons] at h
    rw [collect, collect, h.1, collect_congr h.2]

theorem collect_append (f : α → Except ε (List β)) (ys : List α) : ∀ xs,
    collect f (xs ++ ys) = collect f xs >>= fun zs => (collect f ys).map (zs ++ ·)
  | [] => by
    change collect f ys = (collect f ys).map ([] ++ ·)
    cases collect f ys <;> rfl
  | x :: xs => by
    rw [List.cons_append, collect, collect, collect_append f ys xs]
    cases f x with
    | error e => rfl
    | ok zs =>
      cases collect f xs with
      | error e => rfl
      | ok zs' =>
        cases hys : collect f ys with
        | error e => rfl
        | ok zs'' => exact congrArg Except.ok (List.append_assoc zs zs' zs'').symm

/-- A loop in a loop is one over all elements. -/
theorem collect_flatMap (f : α → Except ε (List β)) (g : γ → List α) : ∀ zs : List γ,
    collect f (zs.flatMap g) = collect (fun z => collect f (g z)) zs
  | [] => rfl
  | z :: zs => by
    rw [List.flatMap_cons, collect_append, collect_flatMap f g zs, collect]

theorem collect_map (f : β → Except ε (List γ)) (g : α → β) : ∀ xs : List α,
    collect f (xs.map g) = collect (fun x => f (g x)) xs
  | [] => rfl
  | x :: xs => by
    rw [List.map_cons, collect, collect, collect_map f g xs]

/-- A loop whose calls push one element each. -/
theorem collect_singleton (f : α → β) : ∀ xs : List α,
    collect (fun x => (.ok [f x] : Except ε (List β))) xs = .ok (xs.map f)
  | [] => rfl
  | x :: xs => by
    rw [collect, collect_singleton f xs]
    rfl

/-- All that is pushed is pushed by a call. -/
theorem exists_of_mem_collect {f : α → Except ε (List β)} {y : β} : ∀ {xs : List α} {ys : List β},
    collect f xs = .ok ys → y ∈ ys → ∃ x ∈ xs, ∃ zs, f x = .ok zs ∧ y ∈ zs
  | [], ys, h, hy => by
    obtain rfl : [] = ys := Except.ok.inj h
    exact absurd hy List.not_mem_nil
  | x :: xs, ys, h, hy => by
    rw [collect] at h
    obtain ⟨zs, hzs, h⟩ := bind_eq_ok.1 h
    cases hxs : collect f xs with
    | error e =>
      rw [hxs] at h
      cases h
    | ok zs' =>
      rw [hxs] at h
      obtain rfl : zs ++ zs' = ys := Except.ok.inj h
      rcases List.mem_append.1 hy with hy | hy
      · exact ⟨x, List.mem_cons_self, zs, hzs, hy⟩
      · obtain ⟨x', hx', hfound⟩ := exists_of_mem_collect hxs hy
        exact ⟨x', List.mem_cons_of_mem x hx', hfound⟩

/-- What is pushed may be changed on the way or at the end, and so may an error. -/
theorem mapError_map_collect (f : α → Except ε (List β)) (e : ε → ε') (g : β → γ) : ∀ xs : List α,
    ((collect f xs).mapError e).map (List.map g) =
      collect (fun x => ((f x).mapError e).map (List.map g)) xs
  | [] => rfl
  | x :: xs => by
    rw [collect, collect, ← mapError_map_collect f e g xs]
    cases f x with
    | error _ => rfl
    | ok ys =>
      cases collect f xs with
      | error _ => rfl
      | ok zs => exact congrArg Except.ok List.map_append

/-! ## Success -/

theorem toOption_bind {α β : Type} (x : Except ε α) (f : α → Except ε β) :
    (x >>= f).toOption = x.toOption.bind fun a => (f a).toOption := by
  cases x <;> rfl

theorem toOption_map {α β : Type} (x : Except ε α) (f : α → β) :
    (x.map f).toOption = x.toOption.map f := by
  cases x <;> rfl

theorem toOption_collect_cons (f : α → Except ε (List β)) (x : α) (xs : List α) :
    (collect f (x :: xs)).toOption =
      (f x).toOption.bind fun ys => (collect f xs).toOption.map (ys ++ ·) := by
  rw [collect, toOption_bind]
  simp only [toOption_map]

theorem toOption_mapError {α : Type} (x : Except ε α) (e : ε → ε') :
    (x.mapError e).toOption = x.toOption := by
  cases x <;> rfl

/-- The calls may fail for other reasons. -/
theorem toOption_collect_congr {f : α → Except ε (List β)} {g : α → Except ε' (List β)} :
    ∀ {xs : List α}, (∀ x ∈ xs, (f x).toOption = (g x).toOption) →
      (collect f xs).toOption = (collect g xs).toOption
  | [], _ => rfl
  | x :: xs, h => by
    rw [List.forall_mem_cons] at h
    rw [toOption_collect_cons, toOption_collect_cons, h.1, toOption_collect_congr h.2]

/-- A second loop over what has been pushed may as well be part of the first. -/
theorem toOption_collect_bind {f : α → Except ε (List β)} {g : β → Except ε' (List γ)}
    {h : α → Except ε' (List γ)}
    (hcall : ∀ x, (h x).toOption = (f x).toOption.bind fun ys => (collect g ys).toOption) :
    ∀ xs : List α, (collect f xs).toOption.bind (fun ys => (collect g ys).toOption) =
      (collect h xs).toOption
  | [] => rfl
  | x :: xs => by
    rw [toOption_collect_cons, toOption_collect_cons, hcall, ← toOption_collect_bind hcall xs]
    cases (f x).toOption with
    | none => rfl
    | some ys =>
      simp only [Option.bind_some]
      cases (collect f xs).toOption with
      | none => simp
      | some zs =>
        simp only [Option.map_some, Option.bind_some, collect_append, toOption_bind, toOption_map]

end Fallible
