import Overloading.Json.Signatures
import Overloading.Proofs.Resolution.Pinning

/-! # Shipping signatures

A signature that is found on one node is shipped to another as JSON and looked up there. Nothing is
lost on the way (`Json.Lossless`): a value that was written is read back, and whatever form a value
was read from, its own form is read as the same value and written as the same form. So the signature
is found on every node that has an overload with it (`Registry.exists_find?_iff`), and a call that is
pinned to it has the same bound signature there. -/

namespace Overloading

/-- A format in which no value changes by writing and reading. -/
structure Json.Lossless {α : Type} (write : α → Json) (read? : Json → Option α) : Prop where
  read_write : ∀ x, read? (write x) = some x
  stable : ∀ j x, read? j = some x →
    read? (write x) = some x ∧ (read? (write x)).map write = some (write x)

/-- If values are read back, then a value that is read keeps its form from there on. -/
theorem Json.Lossless.of_read_write {α : Type} {write : α → Json} {read? : Json → Option α}
    (h : ∀ x, read? (write x) = some x) : Lossless write read? where
  read_write := h
  stable _ x _ := ⟨h x, by rw [h x, Option.map_some]⟩

namespace Registry

variable {r : Registry} {s : Signature} {o : Overload}

/-- **A signature is found where an overload under its name has it.** -/
theorem exists_find?_iff :
    (∃ o, r.find? s = some o) ↔ ∃ o ∈ r.group s.name, o.signature = s := by
  have htable : ∀ t : Table, (t.find? s).isSome = true ↔ ∃ o ∈ t.group s.name, o.signature = s := by
    intro t
    simp only [Table.find?, List.find?_isSome, decide_eq_true_eq, Table.mem_group]
    constructor
    · rintro ⟨o, ho, rfl⟩
      exact ⟨o, ⟨ho, rfl⟩, rfl⟩
    · rintro ⟨o, ⟨ho, -⟩, hs⟩
      exact ⟨o, ho, hs⟩
  rw [← Option.isSome_iff_exists, find?, Option.isSome_or, Bool.or_eq_true, htable, htable]
  simp only [group, List.mem_append, or_and_right, exists_or]

theorem signature_of_find? (h : r.find? s = some o) : o.signature = s := by
  rcases Option.or_eq_some_iff.1 h with h | ⟨-, h⟩ <;> simpa using List.find?_some h

theorem resolveCall_pinned_of_find? (h : r.find? s = some o) (p : SearchPath) (args : List SqlType)
    (ret : SqlType) : r.resolveCall p (.pinned s args ret) = .ok (o.instantiate args ret) := by
  show r.resolveSignature s args ret = _
  rw [resolveSignature, h]

/-- **Nothing that is shipped is lost.** Types, terms, names, signatures and bound signatures come
back from JSON as they were. A signature that is found in one registry and shipped is found in
another exactly if an overload there has it, and calls that are pinned to it have the same bound
signature in both. -/
theorem lossless_shipping :
    Json.Lossless SqlType.toJson SqlType.ofJson? ∧
      Json.Lossless TypeTerm.toJson TypeTerm.ofJson? ∧
      Json.Lossless FunctionName.toJson FunctionName.ofJson? ∧
      Json.Lossless Signature.toJson Signature.ofJson? ∧
      Json.Lossless BoundSignature.toJson BoundSignature.ofJson? ∧
      ∀ (r r' : Registry) (s s' : Signature) (o : Overload),
        r.find? s = some o → Signature.ofJson? s.toJson = some s' →
        ((∃ o', r'.find? s' = some o') ↔ ∃ x ∈ r'.group o.name, x.signature = o.signature) ∧
        ∀ o', r'.find? s' = some o' → o'.signature = o.signature ∧
          ∀ (p q : SearchPath) (args : List SqlType) (ret : SqlType),
            r.resolveCall p (.pinned s args ret) = .ok (o.instantiate args ret) ∧
            r'.resolveCall q (.pinned s' args ret) = .ok (o'.instantiate args ret) ∧
            (o'.instantiate args ret).bound = (o.instantiate args ret).bound := by
  refine ⟨.of_read_write SqlType.ofJson?_toJson, .of_read_write TypeTerm.ofJson?_toJson,
    .of_read_write FunctionName.ofJson?_toJson, .of_read_write Signature.ofJson?_toJson,
    .of_read_write BoundSignature.ofJson?_toJson, fun r r' s s' o ho hs => ?_⟩
  obtain rfl : s = s' := by
    rw [Signature.ofJson?_toJson] at hs
    exact Option.some.inj hs
  obtain rfl : o.signature = s := signature_of_find? ho
  refine ⟨exists_find?_iff, fun o' ho' => ?_⟩
  have hsig : o'.signature = o.signature := signature_of_find? ho'
  refine ⟨hsig, fun p q args ret => ⟨resolveCall_pinned_of_find? ho p args ret,
    resolveCall_pinned_of_find? ho' q args ret, ?_⟩⟩
  show BoundSignature.ofTypes o'.signature args ret = BoundSignature.ofTypes o.signature args ret
  rw [hsig]

/-- A node where `a.f(bigint)` is defined in another way than at the `crossroads`. -/
def abroad : Registry := run {} [.register "a" [script "a" "f" .bigint "3"]]

/-- `a.f(bigint)` is shipped from the `crossroads`, and a name is read without its schema and with a
member that means nothing. -/
theorem lossless_shipping_abroad :
    crossroads.find? (script "a" "f" .bigint "1").signature = some (script "a" "f" .bigint "1") ∧
      abroad.find? (script "a" "f" .bigint "1").signature = some (script "a" "f" .bigint "3") ∧
      ((script "a" "f" .bigint "3").instantiate [.scalar .bigint] (.scalar .bigint)).bound =
        ((script "a" "f" .bigint "1").instantiate [.scalar .bigint] (.scalar .bigint)).bound ∧
      FunctionName.ofJson? (.obj [("note", .null), ("name", .str "f")]) = some { name := "f" } ∧
      FunctionName.ofJson? (FunctionName.toJson { name := "f" }) = some { name := "f" } := by
  obtain ⟨-, -, hnames, -, -, hships⟩ := lossless_shipping
  have hread : FunctionName.ofJson? (.obj [("note", .null), ("name", .str "f")]) =
      some { name := "f" } := rfl
  have hhome : crossroads.find? (script "a" "f" .bigint "1").signature =
      some (script "a" "f" .bigint "1") := by decide +kernel
  have haway : abroad.find? (script "a" "f" .bigint "1").signature =
      some (script "a" "f" .bigint "3") := by decide +kernel
  obtain ⟨-, hfound⟩ := hships crossroads abroad _ _ _ hhome (Signature.ofJson?_toJson _)
  obtain ⟨-, hcalls⟩ := hfound _ haway
  obtain ⟨-, -, hbound⟩ := hcalls {} {} [.scalar .bigint] (.scalar .bigint)
  exact ⟨hhome, haway, hbound, hread, (hnames.stable _ _ hread).1⟩

end Registry

end Overloading
