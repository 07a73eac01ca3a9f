import N8n.JsonCompatible

/-!
# The check is exact

The set holds the objects on the way to a value when its check starts, and again when it ends with
nothing found. So a value passes just if what it reaches is compatible and leads to none of them.
-/

namespace N8n.JsonCompatible

variable {n : ℕ} {heap : Heap n} {keysToIgnore : List String}

/-! ## Graphs -/

theorem reaches_reference {root address : Fin n} :
    Reaches heap keysToIgnore (.reference root) address ↔
      Relation.ReflTransGen (Follows heap keysToIgnore) root address := by
  refine ⟨fun ⟨root', hroot, h⟩ => ?_, fun h => ⟨root, rfl, h⟩⟩
  obtain rfl := GraphValue.reference.inj hroot
  exact h

/-- An object reaches itself and what the values in it reach. -/
theorem reaches_iff {root address : Fin n} :
    Reaches heap keysToIgnore (.reference root) address ↔ address = root ∨
      ∃ child ∈ (heap root).children keysToIgnore, Reaches heap keysToIgnore child address := by
  rw [reaches_reference, Relation.ReflTransGen.cases_head_iff]
  refine or_congr eq_comm ⟨?_, ?_⟩
  · rintro ⟨child, hchild, h⟩
    exact ⟨.reference child, hchild, reaches_reference.2 h⟩
  · rintro ⟨_, hchild, ⟨child, rfl, h⟩⟩
    exact ⟨child, hchild, h⟩

theorem isCyclic_iff {address : Fin n} : IsCyclic heap keysToIgnore address ↔
    ∃ child ∈ (heap address).children keysToIgnore,
      Reaches heap keysToIgnore child address := by
  unfold IsCyclic
  rw [Relation.TransGen.head'_iff]
  constructor
  · rintro ⟨child, hchild, h⟩
    exact ⟨.reference child, hchild, reaches_reference.2 h⟩
  · rintro ⟨_, hchild, ⟨child, rfl, h⟩⟩
    exact ⟨child, hchild, h⟩

/-- The value is compatible and leads to no object of the set. -/
structure Fine (heap : Heap n) (keysToIgnore : List String) (stack : Finset (Fin n))
    (value : GraphValue n) : Prop where
  compatible : Compatible heap keysToIgnore value
  leaves : ∀ address ∈ stack, ¬ Reaches heap keysToIgnore value address

/-- An object is compatible just if its values are and do not lead back to it. -/
theorem fine_reference_iff {stack : Finset (Fin n)} {root : Fin n} :
    Fine heap keysToIgnore stack (.reference root) ↔ root ∉ stack ∧ (heap root).IsAllowed ∧
      ∀ child ∈ (heap root).children keysToIgnore,
        Fine heap keysToIgnore (insert root stack) child := by
  have hself : Reaches heap keysToIgnore (.reference root) root := reaches_iff.2 (.inl rfl)
  constructor
  · rintro ⟨⟨-, hobjects, hvalues, hacyclic⟩, hleaves⟩
    refine ⟨fun hmem => hleaves root hmem hself, hobjects root hself, fun child hchild => ?_⟩
    have hreaches : ∀ {address}, Reaches heap keysToIgnore child address →
        Reaches heap keysToIgnore (.reference root) address :=
      fun h => reaches_iff.2 (.inr ⟨child, hchild, h⟩)
    refine ⟨⟨hvalues root hself child hchild, fun address h => hobjects address (hreaches h),
      fun address h => hvalues address (hreaches h),
      fun address h => hacyclic address (hreaches h)⟩, fun address hmem h => ?_⟩
    rcases Finset.mem_insert.1 hmem with rfl | hmem
    · exact hacyclic address hself (isCyclic_iff.2 ⟨child, hchild, h⟩)
    · exact hleaves address hmem (hreaches h)
  · rintro ⟨hroot, hallowed, hchildren⟩
    refine ⟨⟨trivial, fun address h => ?_, fun address h child hchild => ?_, fun address h => ?_⟩,
      fun address hmem h => ?_⟩
    · rcases reaches_iff.1 h with rfl | ⟨child, hchild, h⟩
      · exact hallowed
      · exact (hchildren child hchild).compatible.objects address h
    · rcases reaches_iff.1 h with rfl | ⟨child', hchild', h⟩
      · exact (hchildren child hchild).compatible.root
      · exact (hchildren child' hchild').compatible.values address h child hchild
    · rcases reaches_iff.1 h with rfl | ⟨child, hchild, h⟩
      · rw [isCyclic_iff]
        rintro ⟨child, hchild, h⟩
        exact (hchildren child hchild).leaves address (Finset.mem_insert_self _ _) h
      · exact (hchildren child hchild).compatible.acyclic address h
    · rcases reaches_iff.1 h with rfl | ⟨child, hchild, h⟩
      · exact hroot hmem
      · exact (hchildren child hchild).leaves address (Finset.mem_insert_of_mem hmem) h

/-! ## Loops -/

/-- A check comes to an end. It finds nothing just where the value is fine, and then leaves the set
as it was; and it finds a circular reference only where there is one. -/
def Settles (fine circular : Prop) (stack : Finset (Fin n))
    (out : Option (Result × Finset (Fin n))) : Prop :=
  (fine ∧ out = some (.valid, stack)) ∨
    (¬ fine ∧ ∃ errorPath errorMessage stack',
      out = some (.invalid errorPath errorMessage, stack') ∧ (errorMessage = .circular → circular))

theorem Settles.congr {fine fine' circular circular' : Prop} {stack : Finset (Fin n)}
    {out : Option (Result × Finset (Fin n))} (h : Settles fine circular stack out)
    (hfine : fine ↔ fine') (hcircular : circular → circular') :
    Settles fine' circular' stack out := by
  rcases h with ⟨h, hout⟩ | ⟨h, errorPath, errorMessage, stack', hout, hmessage⟩
  · exact .inl ⟨hfine.1 h, hout⟩
  · exact .inr ⟨mt hfine.2 h, errorPath, errorMessage, stack', hout,
      fun heq => hcircular (hmessage heq)⟩

variable {check : Check n} {fine circular : GraphValue n → Prop} {stack : Finset (Fin n)}

/-- The check of one value, and the rest of the loop where it finds nothing. -/
theorem Settles.bind {p q pc qc : Prop} {out : Option (Result × Finset (Fin n))}
    {rest : Finset (Fin n) → Option (Result × Finset (Fin n))} (h : Settles p pc stack out)
    (hrest : Settles q qc stack (rest stack)) :
    Settles (p ∧ q) (pc ∨ qc) stack (out >>= fun found =>
      match found.1 with
      | .valid => rest found.2
      | .invalid _ _ => some (found.1, found.2)) := by
  rcases h with ⟨hp, rfl⟩ | ⟨hp, errorPath, errorMessage, stack', rfl, hmessage⟩
  · exact hrest.congr (and_iff_right hp).symm .inr
  · exact .inr ⟨fun h => hp h.1, errorPath, errorMessage, stack', rfl, fun h => .inl (hmessage h)⟩

theorem checkElements_settles {path : String} : ∀ {elements : List (GraphValue n)} {i : ℕ},
    (∀ val ∈ elements, ∀ path, Settles (fine val) (circular val) stack (check path stack val)) →
      Settles (∀ val ∈ elements, fine val) (∃ val ∈ elements, circular val) stack
        (checkElements check path i elements stack)
  | [], i, _ => .inl ⟨fun _ h => absurd h List.not_mem_nil, rfl⟩
  | val :: elements, i, h => by
    rw [List.forall_mem_cons] at h
    exact ((h.1 _).bind (checkElements_settles h.2)).congr List.forall_mem_cons.symm
      (List.exists_mem_cons_iff _ _ _).2

theorem children_cons (prototype : Prototype) (key : String) (subVal : GraphValue n)
    (properties : List (PropertyKey × GraphValue n)) :
    (HeapObject.object prototype ((.string key, subVal) :: properties)).children keysToIgnore =
      if key ∈ keysToIgnore then (HeapObject.object prototype properties).children keysToIgnore
      else subVal :: (HeapObject.object prototype properties).children keysToIgnore := by
  simp only [HeapObject.children, List.filterMap_cons]
  split_ifs <;> rfl

theorem checkProperties_settles {path : String} :
    ∀ {properties : List (PropertyKey × GraphValue n)},
      (∀ val ∈ (HeapObject.object .plain properties).children keysToIgnore, ∀ path,
        Settles (fine val) (circular val) stack (check path stack val)) →
      Settles ((∀ property ∈ properties, ∃ key, property.1 = .string key) ∧
          ∀ val ∈ (HeapObject.object .plain properties).children keysToIgnore, fine val)
        (∃ val ∈ (HeapObject.object .plain properties).children keysToIgnore, circular val) stack
        (checkProperties check keysToIgnore path properties stack)
  | [], _ =>
    .inl ⟨⟨fun _ h => absurd h List.not_mem_nil, fun _ h => absurd h List.not_mem_nil⟩, rfl⟩
  | (.symbol description, val) :: properties, h => by
    refine .inr ⟨fun ⟨hkeys, _⟩ => ?_, _, _, _, rfl, fun hmessage => by cases hmessage⟩
    obtain ⟨key, hkey⟩ := hkeys _ List.mem_cons_self
    cases hkey
  | (.string key, subVal) :: properties, h => by
    have hkeys : (∀ property ∈ (PropertyKey.string key, subVal) :: properties,
        ∃ key, property.1 = .string key) ↔
          ∀ property ∈ properties, ∃ key, property.1 = .string key := by
      rw [List.forall_mem_cons]
      exact and_iff_right ⟨key, rfl⟩
    rw [children_cons] at h
    rw [children_cons, hkeys, checkProperties]
    split_ifs at h ⊢ with hignored
    · exact checkProperties_settles h
    · rw [List.forall_mem_cons] at h
      refine ((h.1 _).bind (checkProperties_settles h.2)).congr ?_
        (List.exists_mem_cons_iff _ _ _).2
      rw [List.forall_mem_cons, and_left_comm]

/-! ## The recursion -/

/-- A circular reference is found where the value leads to the set or to a cycle. -/
def IsCircular (heap : Heap n) (keysToIgnore : List String) (stack : Finset (Fin n))
    (value : GraphValue n) : Prop :=
  ∃ address, Reaches heap keysToIgnore value address ∧
    (address ∈ stack ∨ IsCyclic heap keysToIgnore address)

/-- Where the value itself leads. -/
def GraphValue.address? : GraphValue n → Option (Fin n)
  | .reference address => some address
  | _ => none

theorem not_reaches {value : GraphValue n} (h : value.address? = none) (address : Fin n) :
    ¬ Reaches heap keysToIgnore value address := by
  rintro ⟨root, rfl, -⟩
  cases h

/-- A value without a reference is fine if it is allowed. -/
theorem fine_iff_isAllowed {value : GraphValue n} (h : value.address? = none) :
    Fine heap keysToIgnore stack value ↔ value.IsAllowed :=
  ⟨fun h => h.compatible.root, fun hallowed =>
    ⟨⟨hallowed, fun address hreaches => absurd hreaches (not_reaches h address),
      fun address hreaches => absurd hreaches (not_reaches h address),
      fun address hreaches => absurd hreaches (not_reaches h address)⟩,
    fun address _ => not_reaches h address⟩⟩

theorem isCircular_of_child {root : Fin n}
    (h : ∃ child ∈ (heap root).children keysToIgnore,
      IsCircular heap keysToIgnore (insert root stack) child) :
    IsCircular heap keysToIgnore stack (.reference root) := by
  obtain ⟨child, hchild, address, hreaches, hcircular⟩ := h
  have hroot : Reaches heap keysToIgnore (.reference root) address :=
    reaches_iff.2 (.inr ⟨child, hchild, hreaches⟩)
  rcases hcircular with hmem | hcyclic
  · rcases Finset.mem_insert.1 hmem with rfl | hmem
    · exact ⟨address, hroot, .inr (isCyclic_iff.2 ⟨child, hchild, hreaches⟩)⟩
    · exact ⟨address, hroot, .inl hmem⟩
  · exact ⟨address, hroot, .inr hcyclic⟩

/-- The object is taken out of the set again. -/
theorem Settles.leave {p c : Prop} {root : Fin n} {out : Option (Result × Finset (Fin n))}
    (hroot : root ∉ stack) (h : Settles p c (insert root stack) out) :
    Settles p c stack (out.map (N8n.JsonCompatible.leave root)) := by
  rcases h with ⟨hp, rfl⟩ | ⟨hp, errorPath, errorMessage, stack', rfl, hmessage⟩
  · refine .inl ⟨hp, ?_⟩
    rw [Option.map_some, N8n.JsonCompatible.leave, Finset.erase_insert hroot]
  · exact .inr ⟨hp, errorPath, errorMessage, stack', rfl, hmessage⟩

/-- An object that is in the set already. -/
theorem checkObject_settles (keysToIgnore : List String) (path : String) (object : HeapObject n)
    (h : ∀ val ∈ object.children keysToIgnore, ∀ path,
      Settles (fine val) (circular val) stack (check path stack val)) :
    Settles (object.IsAllowed ∧ ∀ val ∈ object.children keysToIgnore, fine val)
      (∃ val ∈ object.children keysToIgnore, circular val) stack
      (checkObject check keysToIgnore path stack object) := by
  cases object with
  | array elements => exact (checkElements_settles h).congr (and_iff_right trivial).symm id
  | object prototype properties =>
    cases prototype with
    | other constructorName =>
      refine .inr ⟨fun h => ?_, _, _, _, rfl, nofun⟩
      rcases h.1.1 with h | h <;> cases h
    | plain =>
      refine (checkProperties_settles h).congr ?_ id
      exact and_congr_left' (and_iff_right (.inl rfl)).symm
    | null =>
      refine (checkProperties_settles h).congr ?_ id
      exact and_congr_left' (and_iff_right (.inr rfl)).symm

/-- The objects that are not in the set are enough fuel. -/
theorem check_settles (heap : Heap n) (keysToIgnore : List String) :
    ∀ {fuel : ℕ} {stack : Finset (Fin n)}, n < fuel + stack.card →
      ∀ (value : GraphValue n) (path : String),
        Settles (Fine heap keysToIgnore stack value) (IsCircular heap keysToIgnore stack value)
          stack (N8n.JsonCompatible.check heap keysToIgnore fuel path stack value)
  | 0, stack, hfuel, _, _ => by
    have hcard := Finset.card_le_univ stack
    rw [Fintype.card_fin] at hcard
    omega
  | fuel + 1, stack, hfuel, value, path => by
    cases value with
    | null => exact .inl ⟨(fine_iff_isAllowed rfl).2 trivial, rfl⟩
    | undefined => exact .inl ⟨(fine_iff_isAllowed rfl).2 trivial, rfl⟩
    | boolean value => exact .inl ⟨(fine_iff_isAllowed rfl).2 trivial, rfl⟩
    | string value => exact .inl ⟨(fine_iff_isAllowed rfl).2 trivial, rfl⟩
    | number value =>
      rw [N8n.JsonCompatible.check]
      split_ifs with hfinite
      · exact .inl ⟨(fine_iff_isAllowed rfl).2 hfinite, rfl⟩
      · exact .inr ⟨mt (fine_iff_isAllowed rfl).1 hfinite, _, _, _, rfl, nofun⟩
    | other type =>
      exact .inr ⟨mt (fine_iff_isAllowed rfl).1 id, _, _, _, rfl, nofun⟩
    | reference root =>
      rw [N8n.JsonCompatible.check]
      split_ifs with hmem
      · exact .inr ⟨fun h => h.leaves root hmem (reaches_iff.2 (.inl rfl)), _, _, _, rfl,
          fun _ => ⟨root, reaches_iff.2 (.inl rfl), .inl hmem⟩⟩
      · have hfuel' : n < fuel + (insert root stack).card := by
          rw [Finset.card_insert_of_notMem hmem]
          omega
        have hobject := checkObject_settles keysToIgnore path (heap root)
          fun child _ path => check_settles heap keysToIgnore hfuel' child path
        refine (hobject.leave hmem).congr ?_ isCircular_of_child
        rw [fine_reference_iff, and_iff_right hmem]

/-! ## Fuel -/

/-- One check goes at least as far as another. -/
def Extends (check check' : Check n) : Prop :=
  ∀ path stack val out, check path stack val = some out → check' path stack val = some out

variable {check' : Check n}

theorem Extends.checkElements (h : Extends check check') {path : String} :
    ∀ {elements : List (GraphValue n)} {i : ℕ} {stack : Finset (Fin n)} {out},
      N8n.JsonCompatible.checkElements check path i elements stack = some out →
        N8n.JsonCompatible.checkElements check' path i elements stack = some out
  | [], _, _, _, hout => hout
  | val :: elements, i, stack, out, hout => by
    rw [N8n.JsonCompatible.checkElements] at hout ⊢
    obtain ⟨⟨result, stack'⟩, hfound, hout⟩ := Option.bind_eq_some_iff.1 hout
    rw [h _ _ _ _ hfound]
    cases result with
    | valid => exact h.checkElements hout
    | invalid errorPath errorMessage => exact hout

theorem Extends.checkProperties (h : Extends check check') {path : String} :
    ∀ {properties : List (PropertyKey × GraphValue n)} {stack : Finset (Fin n)} {out},
      N8n.JsonCompatible.checkProperties check keysToIgnore path properties stack = some out →
        N8n.JsonCompatible.checkProperties check' keysToIgnore path properties stack = some out
  | [], _, _, hout => hout
  | (.symbol description, _) :: _, _, _, hout => hout
  | (.string key, subVal) :: properties, stack, out, hout => by
    rw [N8n.JsonCompatible.checkProperties] at hout ⊢
    split_ifs at hout ⊢ with hignored
    · exact h.checkProperties hout
    · obtain ⟨⟨result, stack'⟩, hfound, hout⟩ := Option.bind_eq_some_iff.1 hout
      rw [h _ _ _ _ hfound]
      cases result with
      | valid => exact h.checkProperties hout
      | invalid errorPath errorMessage => exact hout

theorem Extends.checkObject (h : Extends check check') {path : String} {stack : Finset (Fin n)} :
    ∀ {object : HeapObject n} {out},
      N8n.JsonCompatible.checkObject check keysToIgnore path stack object = some out →
        N8n.JsonCompatible.checkObject check' keysToIgnore path stack object = some out
  | .array _, _, hout => h.checkElements hout
  | .object (.other _) _, _, hout => hout
  | .object .plain _, _, hout => h.checkProperties hout
  | .object .null _, _, hout => h.checkProperties hout

theorem extends_check (heap : Heap n) (keysToIgnore : List String) : ∀ fuel : ℕ,
    Extends (N8n.JsonCompatible.check heap keysToIgnore fuel)
      (N8n.JsonCompatible.check heap keysToIgnore (fuel + 1))
  | 0, _, _, _, _, hout => by cases hout
  | fuel + 1, path, stack, val, out, hout => by
    cases val with
    | reference root =>
      rw [N8n.JsonCompatible.check] at hout ⊢
      split_ifs at hout ⊢ with hmem
      · exact hout
      · obtain ⟨found, hfound, rfl⟩ := Option.map_eq_some_iff.1 hout
        rw [(extends_check heap keysToIgnore fuel).checkObject hfound]
        rfl
    | _ => exact hout

/-- One unit of fuel more than there are objects is enough, and no more changes the result. -/
theorem isJsonCompatible_eq {heap : Heap n} {value : GraphValue n} {fuel : ℕ} (hfuel : n < fuel) :
    isJsonCompatible heap fuel value keysToIgnore =
      isJsonCompatible heap (n + 1) value keysToIgnore := by
  induction fuel, hfuel using Nat.le_induction with
  | base => rfl
  | succ fuel hfuel ih =>
    rw [← ih]
    have hcard : n < fuel + (∅ : Finset (Fin n)).card := by
      rw [Finset.card_empty]
      exact hfuel
    have hsettles := check_settles heap keysToIgnore hcard value "value"
    unfold isJsonCompatible
    rcases hsettles with ⟨-, hout⟩ | ⟨-, _, _, _, hout, -⟩
    · rw [hout, extends_check heap keysToIgnore fuel _ _ _ _ hout]
    · rw [hout, extends_check heap keysToIgnore fuel _ _ _ _ hout]

/-! ## The whole check -/

/-- The check comes to an end, and it finds nothing just where what is reached is compatible. It
finds a circular reference only where there is a cycle. -/
theorem isJsonCompatible_exact (heap : Heap n) (value : GraphValue n)
    (keysToIgnore : List String) :
    ∃ result, (∀ fuel, n < fuel → isJsonCompatible heap fuel value keysToIgnore = some result) ∧
      (result = .valid ↔ Compatible heap keysToIgnore value) ∧
      ∀ errorPath, result = .invalid errorPath .circular →
        ∃ address, Reaches heap keysToIgnore value address ∧
          IsCyclic heap keysToIgnore address := by
  have hempty : Fine heap keysToIgnore ∅ value ↔ Compatible heap keysToIgnore value :=
    ⟨fun h => h.compatible, fun h => ⟨h, fun _ hmem => absurd hmem (Finset.notMem_empty _)⟩⟩
  have hcard : n < n + 1 + (∅ : Finset (Fin n)).card := by
    rw [Finset.card_empty]
    exact Nat.lt_succ_self n
  have hsettles := check_settles heap keysToIgnore hcard value "value"
  rcases hsettles with ⟨hfine, hout⟩ | ⟨hfine, errorPath, errorMessage, stack', hout, hmessage⟩
  · refine ⟨.valid, fun fuel hfuel => ?_, iff_of_true rfl (hempty.1 hfine), fun _ h => by cases h⟩
    rw [isJsonCompatible_eq hfuel, isJsonCompatible, hout]
    rfl
  · refine ⟨.invalid errorPath errorMessage, fun fuel hfuel => ?_,
      iff_of_false nofun (mt hempty.2 hfine), fun _ h => ?_⟩
    · rw [isJsonCompatible_eq hfuel, isJsonCompatible, hout]
      rfl
    · obtain ⟨address, hreaches, hcircular⟩ := hmessage (Result.invalid.inj h).2
      exact ⟨address, hreaches, hcircular.resolve_left (Finset.notMem_empty _)⟩

/-- Two arrays that share a third. -/
def sharedArray : Heap 3
  | 0 => .array [.reference 1, .reference 2]
  | 1 => .array [.reference 2]
  | 2 => .array []

example : isJsonCompatible sharedArray 4 (.reference 0) [] = some .valid := rfl

end N8n.JsonCompatible
