import Mathlib.Data.List.Basic
import Overloading.Proofs.TypeTerm.RoundTrip
import Overloading.Signature.Oid

/-! # What a key tells

The key of a number is one text: the name, and in parentheses the argument terms with commas between
them. The first parenthesis ends the name if none stands in it, and the first dot ends the schema
(`FunctionName.render_inj`). Commas and parentheses stand inside of the argument terms as well, so
where a term ends cannot be seen from the next comma. But the argument terms are written as the
parameters of an application are, and the grammar reads those in one way only
(`TypeTerm.DerivesAll.unique`). So a key tells the name and the argument terms
(`Signature.oidKey_eq_iff`). -/

namespace Overloading

/-- A text is known on both sides of the first place of a character. -/
theorem Text.append_cons_inj {c : Char} {l l' r r' : List Char} (hl : c ∉ l) (hl' : c ∉ l') :
    l ++ c :: r = l' ++ c :: r' ↔ l = l' ∧ r = r' := by
  refine ⟨fun h => ?_, fun ⟨h, h'⟩ => by rw [h, h']⟩
  rcases Text.cases_of_append_cons_eq hl h with ⟨hleft, -, hright⟩ | ⟨vs, rfl, -⟩
  · exact ⟨hleft.symm, hright⟩
  · exact absurd (by simp) hl'

namespace FunctionName

variable {m n : FunctionName}

/-- Neither a dot nor an opening parenthesis stands in the name or in its schema. -/
def IsPlain (n : FunctionName) : Prop :=
  ∀ t ∈ n.name :: n.schema.toList, '.' ∉ t.toList ∧ '(' ∉ t.toList

instance (n : FunctionName) : Decidable n.IsPlain :=
  inferInstanceAs (Decidable (∀ t ∈ n.name :: n.schema.toList, '.' ∉ t.toList ∧ '(' ∉ t.toList))

theorem toList_render_qualified (s a : String) :
    (render ⟨some s, a⟩).toList = s.toList ++ '.' :: a.toList := by
  simp [render, String.toList_append]

theorem IsPlain.notMem_render (hn : n.IsPlain) : '(' ∉ n.render.toList := by
  obtain ⟨_ | s, a⟩ := n
  · exact (hn a (by simp)).2
  · have ha := (hn a (by simp)).2
    have hs := (hn s (by simp)).2
    rw [toList_render_qualified]
    simp [ha, hs]

/-- **A plain name is known from its written form.** -/
theorem render_inj (hm : m.IsPlain) (hn : n.IsPlain) : m.render = n.render ↔ m = n := by
  refine ⟨fun h => ?_, fun h => h ▸ rfl⟩
  have hchars : m.render.toList = n.render.toList := congrArg String.toList h
  have hdot : ∀ s a : String, '.' ∈ (render ⟨some s, a⟩).toList := by
    intro s a
    simp [toList_render_qualified]
  obtain ⟨_ | s, a⟩ := m <;> obtain ⟨_ | t, b⟩ := n
  · exact congrArg _ h
  · exact absurd (hchars ▸ hdot t b) (hm a (by simp)).1
  · exact absurd (hchars ▸ hdot s a) (hn b (by simp)).1
  · have hs : '.' ∉ s.toList := (hm s (by simp)).1
    have ht : '.' ∉ t.toList := (hn t (by simp)).1
    rw [toList_render_qualified, toList_render_qualified, Text.append_cons_inj hs ht] at hchars
    rw [String.toList_inj.1 hchars.1, String.toList_inj.1 hchars.2]

end FunctionName

namespace TypeTerm

variable {cs : List Char} {t u : TypeTerm} {ps qs : List TypeTerm}

/-! ### Texts that write several terms -/

/-- **A text writes one term at most.** -/
theorem Derives.unique (h : Derives cs t) (h' : Derives cs u) : t = u := by
  have hparse : ∀ {v : TypeTerm}, Derives cs v → parse (String.ofList cs) = .ok v := by
    intro v hv
    rw [parse_eq_ok_iff, String.toList_ofList]
    exact hv
  exact Except.ok.inj ((hparse h).symm.trans (hparse h'))

/-- A text that writes several terms writes one list of terms only: in parentheses they are the
parameters of an application. -/
theorem DerivesAll.unique (h : DerivesAll cs ps) (h' : DerivesAll cs qs) : ps = qs := by
  have hblank : Text.AllBlank [] := List.forall_mem_nil _
  have hname : Token.IsName ['f'] := by decide +kernel
  exact (app.inj ((Derives.app hblank hname hblank h hblank).unique
    (Derives.app hblank hname hblank h' hblank))).2

theorem Derives.text_ne_nil (h : Derives cs t) : cs ≠ [] := by
  cases h with
  | name _ hn _ => simp [hn.ne_nil]
  | app => simp

theorem DerivesAll.text_ne_nil (h : DerivesAll cs ps) : cs ≠ [] := by
  cases h with
  | one h => exact h.text_ne_nil
  | cons => simp

/-- **Well-formed terms are known from their texts with commas in between.** -/
theorem intercalate_render_inj (hps : ∀ p ∈ ps, p.WellFormed) (hqs : ∀ q ∈ qs, q.WellFormed) :
    ",".intercalate (ps.map render) = ",".intercalate (qs.map render) ↔ ps = qs := by
  refine ⟨fun h => ?_, fun h => h ▸ rfl⟩
  have hblank : Text.AllBlank [] := List.forall_mem_nil _
  have hderives : ∀ {ts : List TypeTerm}, ts ≠ [] → (∀ t ∈ ts, t.WellFormed) →
      DerivesAll (",".intercalate (ts.map render)).toList ts := by
    intro ts hne hts
    have hall := derivesAll_intercalate hblank hne fun t ht => (hts t ht).derives
    simpa [String.toList_intercalate, Function.comp_def] using hall
  -- no terms are written by no text, and by no other text
  rcases eq_or_ne ps [] with rfl | hp <;> rcases eq_or_ne qs [] with rfl | hq
  · rfl
  · exact absurd (congrArg String.toList h).symm (hderives hq hqs).text_ne_nil
  · exact absurd (congrArg String.toList h) (hderives hp hps).text_ne_nil
  · exact (hderives hp hps).unique (h ▸ hderives hq hqs)

end TypeTerm

namespace Signature

variable {s t : Signature}

theorem toList_oidKey (s : Signature) :
    s.oidKey.toList = "proc:".toList ++ (s.name.render.toList ++
      '(' :: ((",".intercalate (s.args.map TypeTerm.render)).toList ++ [')'])) := by
  simp [oidKey, String.toList_append]

/-- **A key tells the name and the argument terms.** If neither a dot nor an opening parenthesis
stands in the names and schemas of two signatures and their argument terms have been read from texts,
then their keys are the same exactly if they have the same name and the same argument terms, whatever
their kinds, results and rules are and whether they are variadic. -/
theorem oidKey_eq_iff (hs : s.name.IsPlain) (ht : t.name.IsPlain)
    (hsargs : ∀ a ∈ s.args, ∃ text, TypeTerm.parse text = .ok a)
    (htargs : ∀ a ∈ t.args, ∃ text, TypeTerm.parse text = .ok a) :
    s.oidKey = t.oidKey ↔ s.name = t.name ∧ s.args = t.args := by
  have hread : ∀ {as : List TypeTerm}, (∀ a ∈ as, ∃ text, TypeTerm.parse text = .ok a) →
      ∀ a ∈ as, a.WellFormed := by
    intro as has a ha
    obtain ⟨text, htext⟩ := has a ha
    exact TypeTerm.wellFormed_of_parse htext
  rw [← FunctionName.render_inj hs ht,
    ← TypeTerm.intercalate_render_inj (hread hsargs) (hread htargs)]
  constructor
  · intro h
    have hchars : s.oidKey.toList = t.oidKey.toList := congrArg String.toList h
    rw [toList_oidKey, toList_oidKey, List.append_cancel_left_eq,
      Text.append_cons_inj hs.notMem_render ht.notMem_render] at hchars
    obtain ⟨hname, hargs⟩ := hchars
    exact ⟨String.toList_inj.1 hname, String.toList_inj.1 (List.append_cancel_right hargs)⟩
  · rintro ⟨hname, hargs⟩
    rw [oidKey, oidKey, hname, hargs]

/-- Two arguments, and one argument with two parameters. -/
theorem oidKey_eq_iff_map :
    let s : Signature := { name := ⟨some "doc", "f"⟩, args := [.app "map" [.var "E"], .base "text"] }
    let t : Signature :=
      { name := ⟨some "doc", "f"⟩, kind := .aggregate, variadic := true
        args := [.app "map" [.var "E", .base "text"]] }
    s.name.IsPlain ∧ t.name.IsPlain ∧
      (∀ a ∈ s.args, ∃ text, TypeTerm.parse text = .ok a) ∧
      (∀ a ∈ t.args, ∃ text, TypeTerm.parse text = .ok a) ∧
      (s.oidKey = t.oidKey ↔ s.name = t.name ∧ s.args = t.args) := by
  intro s t
  have hname : s.name.IsPlain := by decide +kernel
  have hs : ∀ a ∈ s.args, ∃ text, TypeTerm.parse text = .ok a := by
    rw [List.forall_mem_cons, List.forall_mem_singleton]
    exact ⟨⟨"map(E)", by decide +kernel⟩, ⟨"text", by decide +kernel⟩⟩
  have ht : ∀ a ∈ t.args, ∃ text, TypeTerm.parse text = .ok a :=
    List.forall_mem_singleton.2 ⟨"map( E,text )", by decide +kernel⟩
  exact ⟨hname, hname, hs, ht, oidKey_eq_iff hname hname hs ht⟩

/-- A name with a dot in it is taken for a name in a schema. -/
example : oidKey { name := ⟨some "a", "b.c"⟩ } = oidKey { name := ⟨some "a.b", "c"⟩ } := by
  decide +kernel

end Signature

end Overloading
