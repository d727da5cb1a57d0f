import Overloading.Proofs.SearchPath.Items

/-! # What a search path shows

A search path can also be kept as the schemas in the order in which they are searched, with a mark
that says whether the schema of the compatibility functions is listed (`SearchOrder`). What the user
has listed then starts at the first place or at the second one, and neither place is ever out of
bounds (`SearchPath.listed?_order`, `SearchPath.current?_order`). So the order determines the path
(`SearchPath.order_injective`).

A path is shown as its listed schemas with commas in between, without quotes. Read as a setting,
this is the same path if each name stands for itself (`Setting.IsBare`), and otherwise it is another
one (`SearchPath.ofSetting_render_eq_iff`): of a name with a comma two items are made, and trimming
and unquoting cannot make up for what they have dropped from a name. -/

namespace Overloading

/-! ### Names that stand for themselves -/

namespace Setting

variable {cs : List Char} {xs : List (List Char)}

/-- The text begins with a quote and ends with another one. -/
def IsQuoted (cs : List Char) : Prop :=
  2 ≤ cs.length ∧ cs.head? = some '"' ∧ cs.getLast? = some '"'

instance (cs : List Char) : Decidable (IsQuoted cs) := inferInstanceAs (Decidable (_ ∧ _ ∧ _))

theorem isQuoted_cons_iff {c : Char} :
    IsQuoted (c :: cs) ↔ c = '"' ∧ cs.getLast? = some '"' := by
  cases cs with
  | nil => simp [IsQuoted]
  | cons d ds => simp [IsQuoted, List.getLast?_cons]

/-- **Only quotes around a text are read as quotes.** -/
theorem unquote_eq_self_iff : unquote cs = cs ↔ ¬ IsQuoted cs := by
  unfold unquote
  split
  · rename_i cs
    rw [isQuoted_cons_iff]
    split
    · rename_i hlast
      have hshort : (halve cs.dropLast).length ≤ cs.length - 1 := by
        rw [← List.length_dropLast]
        exact (halve_sublist _).length_le
      simp only [hlast, and_self, not_true_eq_false, iff_false]
      intro heq
      have hlength := congrArg List.length heq
      rw [List.length_cons] at hlength
      omega
    · rename_i hlast
      simp [hlast]
  · rename_i hquote
    cases cs with
    | nil => simp [IsQuoted]
    | cons c cs =>
      have hc : c ≠ '"' := fun hc => hquote cs (by rw [hc])
      simp [isQuoted_cons_iff, hc]

/-- The name has text, no blank at either end, no comma and no quotes around it. -/
structure IsBare (cs : List Char) : Prop where
  ne_nil : cs ≠ []
  trim_eq : Text.trim cs = cs
  no_comma : ',' ∉ cs
  not_quoted : ¬ IsQuoted cs

instance (cs : List Char) : Decidable (IsBare cs) :=
  decidable_of_iff (cs ≠ [] ∧ Text.trim cs = cs ∧ ',' ∉ cs ∧ ¬ IsQuoted cs)
    ⟨fun ⟨h, ht, hc, hq⟩ => ⟨h, ht, hc, hq⟩,
      fun h => ⟨h.ne_nil, h.trim_eq, h.no_comma, h.not_quoted⟩⟩

/-- What is dropped from a text is gone. -/
theorem unquote_trim_eq_self_iff :
    unquote (Text.trim cs) = cs ↔ Text.trim cs = cs ∧ unquote cs = cs := by
  constructor
  · intro h
    have hback : cs.Sublist (Text.trim cs) := by
      have hsub := unquote_sublist (Text.trim cs)
      rwa [h] at hsub
    have htrim : Text.trim cs = cs := (Text.trim_sublist cs).eq_of_length_le hback.length_le
    rw [htrim] at h
    exact ⟨htrim, h⟩
  · rintro ⟨htrim, h⟩
    rw [htrim, h]

/-- **Texts that are joined are listed as they are exactly if all of them are bare,** given that
none of them has a comma. -/
theorem items_intercalate_eq_self_iff (hxs : ∀ x ∈ xs, ',' ∉ x) :
    items ([',', ' '].intercalate xs) = xs ↔ ∀ x ∈ xs, IsBare x := by
  constructor
  · intro h
    rw [items_intercalate hxs] at h
    -- as many items as texts: none of the texts is blank, and each is listed in its own place
    have hlength : ((xs.map Text.trim).filter (!·.isEmpty)).length = (xs.map Text.trim).length := by
      rw [← List.length_map unquote, h, List.length_map]
    have hkept := List.length_filter_eq_length_iff.1 hlength
    rw [List.filter_eq_self.2 hkept, List.map_map] at h
    intro x hx
    have hself : unquote (Text.trim x) = x := by
      have heq : xs.map (unquote ∘ Text.trim) = xs.map id := by rw [h, List.map_id]
      exact List.map_inj_left.1 heq x hx
    obtain ⟨htrim, hunquote⟩ := unquote_trim_eq_self_iff.1 hself
    have hne : Text.trim x ≠ [] := by simpa using hkept _ (List.mem_map_of_mem hx)
    exact ⟨htrim ▸ hne, htrim, hxs x hx, unquote_eq_self_iff.1 hunquote⟩
  · intro h
    rw [items_intercalate_of_trimmed fun x hx => ⟨(h x hx).ne_nil, (h x hx).trim_eq, hxs x hx⟩]
    have hunquote : xs.map unquote = xs.map id :=
      List.map_congr_left fun x hx => unquote_eq_self_iff.2 (h x hx).not_quoted
    rw [hunquote, List.map_id]

end Setting

/-! ### The order of the search -/

/-- The schemas in the order in which they are searched. The mark says that the schema of the
compatibility functions is among them because it is listed. -/
structure SearchOrder where
  schemas : List String
  explicit : Bool
  deriving DecidableEq

namespace SearchOrder

/-- The order for a list of schemas, which stands for the default schema if it is empty. -/
def ofList (ss : List String) : SearchOrder :=
  let listed := if ss = [] then [defaultSchema] else ss
  if catalogSchema ∈ listed then ⟨listed, true⟩ else ⟨catalogSchema :: listed, false⟩

/-- The number of schemas in front of those that are listed. -/
def skip (o : SearchOrder) : Nat := if o.explicit then 0 else 1

/-- The listed schemas, if there are as many schemas as have to be skipped. -/
def listed? (o : SearchOrder) : Option (List String) :=
  if o.skip ≤ o.schemas.length then some (o.schemas.drop o.skip) else none

/-- The listed schemas as a text. -/
def shown? (o : SearchOrder) : Option String := o.listed?.map (", ".intercalate ·)

/-- The first listed schema, if there is one. -/
def current? (o : SearchOrder) : Option String := o.schemas[o.skip]?

end SearchOrder

namespace SearchPath

variable {p q : SearchPath} {L : List String}

/-- The order in which the path is searched. -/
def order (p : SearchPath) : SearchOrder := ⟨p.effective, p.listed.contains catalogSchema⟩

theorem order_ofList (L : List String) : (ofList L).order = SearchOrder.ofList L := by
  have hlisted : (ofList L).listed = if L = [] then [defaultSchema] else L := by
    cases L <;> rfl
  rw [order, effective, hlisted, SearchOrder.ofList]
  by_cases h : catalogSchema ∈ if L = [] then [defaultSchema] else L <;> simp [h]

theorem drop_skip_order (p : SearchPath) :
    p.order.skip < p.order.schemas.length ∧ p.order.schemas.drop p.order.skip = p.listed := by
  unfold order effective SearchOrder.skip
  cases p.listed.contains catalogSchema <;> simp [listed]

/-- **The listed schemas are within the order.** -/
theorem listed?_order (p : SearchPath) : p.order.listed? = some p.listed := by
  obtain ⟨hlt, hdrop⟩ := p.drop_skip_order
  rw [SearchOrder.listed?, if_pos (Nat.le_of_lt hlt), hdrop]

theorem shown?_order (p : SearchPath) : p.order.shown? = some p.render := by
  rw [SearchOrder.shown?, listed?_order]
  rfl

/-- **The schema of new objects is within the order.** -/
theorem current?_order (p : SearchPath) : p.order.current? = some p.current := by
  rw [SearchOrder.current?, ← List.head?_drop, p.drop_skip_order.2]
  rfl

/-- The order determines the path. -/
theorem order_injective (h : p.order = q.order) : p = q := by
  have hlisted : some p.listed = some q.listed := by
    rw [← listed?_order, h, listed?_order]
  exact listed_injective (Option.some.inj hlisted)

theorem current_ofList (L : List String) : (ofList L).current = L.headD defaultSchema := by
  cases L <;> rfl

/-! ### Showing a path and setting it again -/

theorem toList_render_ofList (hL : L ≠ []) :
    (ofList L).render.toList = [',', ' '].intercalate (L.map String.toList) := by
  rw [render, listed_ofList hL]
  simp

/-- A setting that stands for a list of names lists them, or they are the default schema alone. -/
theorem items_of_ofSetting_eq {s : String} (hL : L ≠ []) (h : ofSetting s = ofList L) :
    Setting.items s.toList = L.map String.toList ∨ L = [defaultSchema] := by
  have hlisted : (ofSetting s).listed = L := by rw [h, listed_ofList hL]
  rw [listed_ofSetting] at hlisted
  split at hlisted
  · exact .inr hlisted.symm
  · left
    rw [← hlisted, List.map_map]
    simp [Function.comp_def]

/-- **A shown path is read back exactly if all its names are bare.** -/
theorem ofSetting_render_eq_iff (hL : L ≠ []) :
    ofSetting (ofList L).render = ofList L ↔ ∀ n ∈ L, Setting.IsBare n.toList := by
  constructor
  · intro h n hn
    have hcomma : ∀ x ∈ L.map String.toList, ',' ∉ x := by
      intro x hx
      obtain ⟨m, hm, rfl⟩ := List.mem_map.1 hx
      have hlisted : (ofSetting (ofList L).render).listed = L := by rw [h, listed_ofList hL]
      exact comma_notMem_of_mem_listed (hlisted ▸ hm)
    rcases items_of_ofSetting_eq hL h with hitems | rfl
    · rw [toList_render_ofList hL] at hitems
      exact (Setting.items_intercalate_eq_self_iff hcomma).1 hitems _ (List.mem_map_of_mem hn)
    · obtain rfl := List.mem_singleton.1 hn
      decide +kernel
  · intro h
    have hbare : ∀ x ∈ L.map String.toList, Setting.IsBare x := List.forall_mem_map.2 h
    refine ofSetting_of_items ?_
    rw [toList_render_ofList hL]
    exact (Setting.items_intercalate_eq_self_iff fun x hx => (hbare x hx).no_comma).2 hbare

/-- **What a path shows sets the path again exactly if all its names are bare.** The two paths are
then searched in the same order, with the schema of the compatibility functions listed in both or in
neither. Whatever is listed, what a path shows and the schema of new objects are found within the
order of the search, and the latter is the first schema that is listed. -/
theorem ofSetting_render_iff (L : List String) :
    (L ≠ [] → ((ofSetting (ofList L).render).order = (ofList L).order ↔
      ∀ n ∈ L, Setting.IsBare n.toList)) ∧
    (ofList L).order = SearchOrder.ofList L ∧
      (SearchOrder.ofList L).shown? = some (ofList L).render ∧
      (SearchOrder.ofList L).current? = some (ofList L).current ∧
      (ofList L).current = L.headD defaultSchema := by
  refine ⟨fun hL => ?_, order_ofList L, ?_, ?_, current_ofList L⟩
  · rw [← ofSetting_render_eq_iff hL]
    exact ⟨order_injective, congrArg order⟩
  · rw [← order_ofList, shown?_order]
  · rw [← order_ofList, current?_order]

/-- A single quote and quotes inside a name stand for themselves. Two quotes do not: they stand for
a name without text. -/
theorem ofSetting_render_iff_quotes :
    let L := ["\"", "my \"own\" schema", "pg_catalog"]
    let M := ["doc", "\"\""]
    L ≠ [] ∧ (ofSetting (ofList L).render).order = (ofList L).order ∧
      M ≠ [] ∧ (ofSetting (ofList M).render).order ≠ (ofList M).order := by
  intro L M
  have hL : L ≠ [] := List.cons_ne_nil _ _
  have hM : M ≠ [] := List.cons_ne_nil _ _
  have hbare : ∀ n ∈ L, Setting.IsBare n.toList := by decide +kernel
  have hquoted : ¬ ∀ n ∈ M, Setting.IsBare n.toList := by decide +kernel
  exact ⟨hL, ((ofSetting_render_iff L).1 hL).2 hbare, hM,
    fun h => hquoted (((ofSetting_render_iff M).1 hM).1 h)⟩

example : ofSetting (ofList ["doc", "\"\""]).render = ofList ["doc", ""] := by decide +kernel

end SearchPath

end Overloading
