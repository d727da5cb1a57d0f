import Overloading.TypeTerm.Basic

/-! # The type a term names

`denote` reads a term without variables as an `SqlType`, or says why it names none. The term of a
type names that type (`denote_toTerm`), and nothing else names it (`denote_eq_ok_iff`). -/

namespace Overloading

/-- Why a type term cannot be read, or names no type. -/
inductive TypeError
  | unboundVariable (name : String)
  | unknownType (name : String)
  | parameterCount (name : String) (expected found : Nat)
  | malformed (input : String)
  deriving DecidableEq

/-- What the error says to a reader. -/
def TypeError.message : TypeError → String
  | unboundVariable v =>
    "cannot create a type from a signature with unbound type variable `" ++ v ++ "`"
  | unknownType n => "unknown type `" ++ n ++ "`"
  | parameterCount n expected found =>
    "type `" ++ n ++ "` expects " ++ toString expected ++ " parameter(s), found " ++
      toString found
  | malformed input => "malformed type signature `" ++ input ++ "`"

namespace TypeTerm

/-- The type that the term names. An array has one parameter; every other type has none, and its
name is looked at before its parameters. -/
def denote : TypeTerm → Except TypeError SqlType
  | var v => .error (.unboundVariable v)
  | app n ps =>
    if n = arrayName then
      match ps with
      | [p] => SqlType.array <$> p.denote
      | _ => .error (.parameterCount n 1 ps.length)
    else
      match Scalar.ofName? n with
      | none => .error (.unknownType n)
      | some s => if ps = [] then .ok (.scalar s) else .error (.parameterCount n 0 ps.length)
termination_by structural t => t

@[simp] theorem denote_array (p : TypeTerm) :
    (app arrayName [p]).denote = SqlType.array <$> p.denote := by
  rw [denote, if_pos rfl]

theorem denote_array_of_length_ne {ps : List TypeTerm} (h : ps.length ≠ 1) :
    (app arrayName ps).denote = .error (.parameterCount arrayName 1 ps.length) := by
  match ps, h with
  | [], _ | _ :: _ :: _, _ => rfl

theorem denote_of_ne {n : String} (h : n ≠ arrayName) (ps : List TypeTerm) :
    (app n ps).denote =
      match Scalar.ofName? n with
      | none => .error (.unknownType n)
      | some s => if ps = [] then .ok (.scalar s) else .error (.parameterCount n 0 ps.length) := by
  unfold denote
  rw [if_neg h]

@[simp] theorem denote_scalar (s : Scalar) : (base s.name).denote = .ok (.scalar s) := by
  simp [denote_of_ne s.name_ne_arrayName]

@[simp] theorem denote_toTerm : ∀ t : SqlType, t.toTerm.denote = .ok t
  | .scalar s => denote_scalar s
  | .array t => by rw [SqlType.toTerm, denote_array, denote_toTerm t]; rfl

theorem eq_toTerm_of_denote {t : TypeTerm} {d : SqlType} (h : t.denote = .ok d) : t = d.toTerm := by
  induction t generalizing d with
  | var v => cases h
  | app n ps ih =>
    by_cases hn : n = arrayName
    · subst n
      by_cases hps : ps.length = 1
      · obtain ⟨p, rfl⟩ := List.length_eq_one_iff.1 hps
        rw [denote_array] at h
        cases hp : p.denote with
        | error e => rw [hp] at h; cases h
        | ok e =>
          rw [hp] at h
          cases h
          rw [SqlType.toTerm, ← ih p (List.mem_singleton.2 rfl) hp]
      · rw [denote_array_of_length_ne hps] at h
        cases h
    · rw [denote_of_ne hn] at h
      split at h
      · cases h
      · rename_i s hs
        split at h
        · cases h
          subst ps
          rw [SqlType.toTerm, Scalar.ofName?_eq_some_iff.1 hs]
        · cases h

/-- **A type has exactly one term.** -/
theorem denote_eq_ok_iff {t : TypeTerm} {d : SqlType} : t.denote = .ok d ↔ t = d.toTerm :=
  ⟨eq_toTerm_of_denote, fun h => h ▸ denote_toTerm d⟩

end TypeTerm

end Overloading
