import Mathlib.Data.List.Infix
import Crossref.Proofs.Toml.Written

/-!
# Documents of nested tables

The entries of the root, then a table in the root with its entries, then a table
in this one, and so on: such a document is written with one header for each
table, and writes just these entries (`writes_nest`).
-/

namespace Crossref.Toml

/-- Entries whose values can be written. -/
abbrev Literals := List (String × Literal)

variable {header : List String} {ls : Literals} {nest : List (String × Literals)}
  {p : List String} {n : Node} {v : Value} {key : String} {es : Entries}

/-- What entries assign in the table with this header. -/
def valuesIn (header : List String) (ls : Literals) : List (List String × Value) :=
  ls.map fun (key, l) => (header ++ [key], l.value)

@[simp] theorem mem_valuesIn_append {ls ls' : Literals} :
    (p, v) ∈ valuesIn header (ls ++ ls') ↔
      (p, v) ∈ valuesIn header ls ∨ (p, v) ∈ valuesIn header ls' := by
  rw [valuesIn, List.map_append, List.mem_append]
  rfl

@[simp] theorem mem_valuesIn_cons {key' : String} :
    (key :: p, v) ∈ valuesIn (key' :: header) ls ↔ key = key' ∧ (p, v) ∈ valuesIn header ls := by
  simp only [valuesIn, List.mem_map, Prod.mk.injEq, List.cons_append, List.cons.injEq]
  constructor
  · rintro ⟨e, hmem, ⟨rfl, hp⟩, hv⟩
    exact ⟨rfl, e, hmem, hp, hv⟩
  · rintro ⟨rfl, e, hmem, hp, hv⟩
    exact ⟨e, hmem, ⟨rfl, hp⟩, hv⟩

@[simp] theorem nil_not_mem_valuesIn : ([], v) ∉ valuesIn header ls := by
  simp [valuesIn]

def entryLines (ls : Literals) : List Line := ls.map fun (key, l) => .entry [key] l

/-- The lines of a table and of the tables nested in it, the first of which each time lies in the
one before. -/
def nestLines (header : List String) (ls : Literals) : List (String × Literals) → List Line
  | [] => entryLines ls
  | (key, ls') :: nest =>
    entryLines ls ++ .header (header ++ [key]) :: nestLines (header ++ [key]) ls' nest

def nestValues (header : List String) (ls : Literals) :
    List (String × Literals) → List (List String × Value)
  | [] => valuesIn header ls
  | (key, ls') :: nest => valuesIn header ls ++ nestValues (header ++ [key]) ls' nest

/-! ## What the lines say -/

theorem leads_literal {l : Literal} : l.value.Leads p n ↔ p = [] ∧ n = .leaf l.value := by
  cases p with
  | nil =>
      rw [leads_nil]
      cases l <;> simp [Literal.value, Value.node, eq_comm]
  | cons key p =>
      cases l <;> simp [Literal.value, Value.Leads]

theorem reaches_leaf {path : List String} {l : Literal} :
    Reaches path l.value p (.leaf v) ↔ p = path ∧ v = l.value := by
  unfold Reaches
  simp [leads_literal]

theorem says_entryLines {rest : List Statement} :
    Says header ((entryLines ls).map Line.statement ++ rest) p n ↔
      (∃ e ∈ ls, Reaches (header ++ [e.1]) e.2.value p n) ∨ Says header rest p n := by
  induction ls with
  | nil => simp [entryLines]
  | cons e ls ih =>
      have hsaid : Says header ((entryLines (e :: ls)).map Line.statement ++ rest) p n ↔
          Reaches (header ++ [e.1]) e.2.value p n ∨
            Says header ((entryLines ls).map Line.statement ++ rest) p n := Iff.rfl
      rw [hsaid, ih, ← or_assoc]
      simp

theorem says_of_entry (h : ∃ e ∈ ls, Reaches (header ++ [e.1]) e.2.value p n) :
    (∃ v, n = .leaf v ∧ (p, v) ∈ valuesIn header ls) ∨ (n = .table ∧ p <+: header) := by
  obtain ⟨⟨key, l⟩, hmem, ⟨hn, hp, hne⟩ | ⟨q, rfl, hleads⟩⟩ := h
  · exact .inr ⟨hn, (List.prefix_concat_iff.mp hp).resolve_left hne⟩
  · obtain ⟨rfl, rfl⟩ := leads_literal.mp hleads
    rw [List.append_nil]
    exact .inl ⟨_, rfl, List.mem_map.mpr ⟨(key, l), hmem, rfl⟩⟩

/-- Lines say nothing but their values and the tables around them. -/
theorem value_or_table_of_says
    (h : Says header ((nestLines header ls nest).map Line.statement) p n) :
    (∃ v, n = .leaf v ∧ (p, v) ∈ nestValues header ls nest) ∨
      (n = .table ∧ p <+: header ++ nest.map Prod.fst) := by
  induction nest generalizing header ls with
  | nil =>
      rw [nestLines, ← List.append_nil (List.map _ _), says_entryLines] at h
      rw [List.map_nil, List.append_nil]
      exact says_of_entry (h.resolve_right id)
  | cons e nest ih =>
      obtain ⟨key, ls'⟩ := e
      have hinit : header ++ [key] <+: header ++ (key :: nest.map Prod.fst) :=
        (List.prefix_append_right_inj header).mpr ⟨nest.map Prod.fst, rfl⟩
      rw [nestLines, List.map_append, says_entryLines] at h
      rcases h with h | h | h
      · refine (says_of_entry h).imp ?_ ?_
        · rintro ⟨v, hn, hmem⟩
          exact ⟨v, hn, List.mem_append_left _ hmem⟩
        · rintro ⟨hn, hp⟩
          exact ⟨hn, hp.trans ((List.prefix_append header [key]).trans hinit)⟩
      · refine .inr ?_
        rcases h with ⟨hn, hp, -⟩ | ⟨q, rfl, hleads⟩
        · exact ⟨hn, hp.trans hinit⟩
        · obtain ⟨rfl, hn⟩ := leads_empty.mp hleads
          rw [List.append_nil]
          exact ⟨hn, hinit⟩
      · refine (ih h).imp ?_ ?_
        · rintro ⟨v, hn, hmem⟩
          exact ⟨v, hn, List.mem_append_right _ hmem⟩
        · rintro ⟨hn, hp⟩
          have hp : p <+: (header ++ [key]) ++ nest.map Prod.fst := hp
          rw [List.append_assoc] at hp
          exact ⟨hn, hp⟩

theorem says_of_mem_values (h : (p, v) ∈ valuesIn header ls) :
    ∃ e ∈ ls, Reaches (header ++ [e.1]) e.2.value p (.leaf v) := by
  obtain ⟨⟨key, l⟩, hmem, heq⟩ := List.mem_map.mp h
  cases heq
  exact ⟨(key, l), hmem, reaches_leaf.mpr ⟨rfl, rfl⟩⟩

/-- Lines say all their values. -/
theorem says_of_mem (h : (p, v) ∈ nestValues header ls nest) :
    Says header ((nestLines header ls nest).map Line.statement) p (.leaf v) := by
  induction nest generalizing header ls with
  | nil =>
      rw [nestLines, ← List.append_nil (List.map _ _), says_entryLines]
      exact .inl (says_of_mem_values h)
  | cons e nest ih =>
      obtain ⟨key, ls'⟩ := e
      rw [nestLines, List.map_append, says_entryLines]
      rcases List.mem_append.mp h with h | h
      · exact .inl (says_of_mem_values h)
      · exact .inr (.inr (ih h))

theorem assigns_nest :
    Assigns (Says [] ((nestLines [] ls nest).map Line.statement)) (nest.map Prod.fst).inits
      (nestValues [] ls nest) where
  leaf p v := by
    refine ⟨fun h => ?_, says_of_mem⟩
    rcases value_or_table_of_says h with ⟨w, hw, hmem⟩ | ⟨hn, -⟩
    · cases hw
      exact hmem
    · cases hn
  table p h := by
    rcases value_or_table_of_says h with ⟨w, hw, -⟩ | ⟨-, hp⟩
    · cases hw
    · exact (List.mem_inits _ _).mpr hp
  array p h := by
    rcases value_or_table_of_says h with ⟨w, hw, -⟩ | ⟨hn, -⟩
    · cases hw
    · cases hn

/-! ## The tree that they build -/

theorem alter_of_not_mem {change : Option Value → Option Value} (h : key ∉ es.map Prod.fst) :
    alter key change es = (change none).map fun v => es ++ [(key, v)] := by
  induction es with
  | nil => rfl
  | cons e es ih =>
      rw [List.map_cons, List.mem_cons, not_or] at h
      rw [alter, if_neg (Ne.symm h.1), ih h.2, Option.map_map]
      rfl

theorem alter_concat {change : Option Value → Option Value} (h : key ∉ es.map Prod.fst) :
    alter key change (es ++ [(key, v)]) = (change (some v)).map fun w => es ++ [(key, w)] := by
  induction es with
  | nil => simp [alter]
  | cons e es ih =>
      rw [List.map_cons, List.mem_cons, not_or] at h
      rw [List.cons_append, alter, if_neg (Ne.symm h.1), ih h.2, Option.map_map]
      rfl

/-- The entries of the root, when the table opened last lies at the end of these tables. -/
def spine : List (String × Entries) → Entries → Entries
  | [], es => es
  | (key, before) :: above, es => before ++ [(key, .table .header (spine above es))]

theorem alterWithin_spine {change : TableKind → Entries → Option Entries}
    {above : List (String × Entries)} (h : ∀ t ∈ above, t.1 ∉ t.2.map Prod.fst) :
    alterWithin false change (above.map Prod.fst) .header (spine above es) =
      (change .header es).map (spine above) := by
  induction above with
  | nil => simp [alterWithin, spine]
  | cons t above ih =>
      obtain ⟨key, before⟩ := t
      rw [List.map_cons, spine, alterWithin, alter_concat (h _ List.mem_cons_self)]
      dsimp only
      rw [if_neg (by simp), ih fun t ht => h t (List.mem_cons_of_mem _ ht), Option.map_map,
        Option.map_map]
      rfl

theorem spine_append (above above' : List (String × Entries)) (es : Entries) :
    spine (above ++ above') es = spine above (spine above' es) := by
  induction above with
  | nil => rfl
  | cons t above ih => rw [List.cons_append, spine, spine, ih]

theorem assign_fresh (hkey : key ∉ es.map Prod.fst) :
    assign [key] v .header es = some (es ++ [(key, v)]) := by
  simp [assign, alterWithin, alter_of_not_mem hkey]

theorem openTable_fresh {above : List (String × Entries)}
    (habove : ∀ t ∈ above, t.1 ∉ t.2.map Prod.fst) (hkey : key ∉ es.map Prod.fst) :
    openTable (above.map Prod.fst ++ [key]) (spine above es) =
      some (spine (above ++ [(key, es)]) []) := by
  rw [openTable, List.getLast?_concat, List.dropLast_concat]
  dsimp only
  rw [alterWithin_spine habove, alter_of_not_mem hkey, spine_append]
  rfl

/-- No key is given twice in a table, as an entry or for the table in it. -/
def Distinct (ls : Literals) : List (String × Literals) → Prop
  | [] => (ls.map Prod.fst).Nodup
  | (key, ls') :: nest => (ls.map Prod.fst ++ [key]).Nodup ∧ Distinct ls' nest

variable {above : List (String × Entries)}

theorem foldlM_entryLines (habove : ∀ t ∈ above, t.1 ∉ t.2.map Prod.fst)
    (hkeys : (es.map Prod.fst ++ ls.map Prod.fst).Nodup) (rest : List Statement) :
    ((entryLines ls).map Line.statement ++ rest).foldlM Draft.apply
        ⟨spine above es, above.map Prod.fst⟩ =
      rest.foldlM Draft.apply
        ⟨spine above (es ++ ls.map fun e => (e.1, e.2.value)), above.map Prod.fst⟩ := by
  induction ls generalizing es with
  | nil => simp [entryLines]
  | cons e ls ih =>
      obtain ⟨key, l⟩ := e
      have hkey : key ∉ es.map Prod.fst := fun hmem =>
        (List.nodup_append.mp hkeys).2.2 key hmem key List.mem_cons_self rfl
      have happly : Draft.apply ⟨spine above es, above.map Prod.fst⟩
          (Line.entry [key] l).statement =
            some ⟨spine above (es ++ [(key, l.value)]), above.map Prod.fst⟩ := by
        show ((alterWithin false (assign [key] l.value) (above.map Prod.fst) .header
          (spine above es)).map _) = _
        rw [alterWithin_spine habove, assign_fresh hkey]
        rfl
      have hkeys' : ((es ++ [(key, l.value)]).map Prod.fst ++ ls.map Prod.fst).Nodup := by
        simpa using hkeys
      have hnext := ih hkeys'
      rw [List.append_assoc] at hnext
      show (Draft.apply _ _).bind _ = _
      rw [happly]
      exact hnext

theorem isSome_foldlM_nestLines (above : List (String × Entries)) (ls : Literals)
    (habove : ∀ t ∈ above, t.1 ∉ t.2.map Prod.fst) (hdistinct : Distinct ls nest) :
    (((nestLines (above.map Prod.fst) ls nest).map Line.statement).foldlM Draft.apply
      ⟨spine above [], above.map Prod.fst⟩).isSome := by
  induction nest generalizing above ls with
  | nil =>
      have hkeys : (([] : Entries).map Prod.fst ++ ls.map Prod.fst).Nodup := hdistinct
      have hrun := foldlM_entryLines habove hkeys []
      rw [List.append_nil] at hrun
      rw [nestLines, hrun]
      rfl
  | cons e nest ih =>
      obtain ⟨key, ls'⟩ := e
      obtain ⟨hkeys, hdistinct⟩ := hdistinct
      obtain ⟨hls, -, hfree⟩ := List.nodup_append.mp hkeys
      have hempty : (([] : Entries).map Prod.fst ++ ls.map Prod.fst).Nodup := hls
      have hkey : key ∉ (ls.map fun e => (e.1, e.2.value)).map Prod.fst := by
        rw [List.map_map]
        exact fun hmem => hfree key hmem key List.mem_cons_self rfl
      have hnext := ih (above ++ [(key, ls.map fun e => (e.1, e.2.value))]) ls' ?_ hdistinct
      · rw [nestLines, List.map_append, foldlM_entryLines habove hempty, List.nil_append]
        have hopen := openTable_fresh habove hkey
        rw [List.map_append] at hnext
        show ((Draft.apply _ _).bind _).isSome
        rw [Line.statement, Draft.apply, hopen]
        exact hnext
      · intro t ht
        rcases List.mem_append.mp ht with ht | ht
        · exact habove t ht
        · obtain rfl := List.mem_singleton.mp ht
          exact hkey

/-! ## Writing them -/

theorem writable_nestLines {header : List String} (hheader : ∀ key ∈ header, IsBare key)
    (hkeys : ∀ e ∈ ls, IsBare e.1) (hnest : ∀ t ∈ nest, IsBare t.1 ∧ ∀ e ∈ t.2, IsBare e.1)
    (hlength : header.length + nest.length ≤ keyLimit) :
    ∀ l ∈ nestLines header ls nest, IsWritable l.path := by
  have hentries (ls : Literals) (hkeys : ∀ e ∈ ls, IsBare e.1) :
      ∀ l ∈ entryLines ls, IsWritable l.path := by
    intro l hl
    obtain ⟨e, he, rfl⟩ := List.mem_map.mp hl
    refine ⟨List.cons_ne_nil _ _, fun key hkey => ?_, (by decide : 1 ≤ keyLimit)⟩
    rw [List.mem_singleton.mp hkey]
    exact hkeys e he
  induction nest generalizing header ls with
  | nil => exact hentries ls hkeys
  | cons t nest ih =>
      obtain ⟨key, ls'⟩ := t
      obtain ⟨hkey, hkeys'⟩ := hnest _ List.mem_cons_self
      have hheader' : ∀ k ∈ header ++ [key], IsBare k := by
        intro k hk
        rcases List.mem_append.mp hk with hk | hk
        · exact hheader k hk
        · rw [List.mem_singleton.mp hk]
          exact hkey
      have hlength' : (header ++ [key]).length + nest.length ≤ keyLimit := by
        rw [List.length_cons] at hlength
        rw [List.length_append, List.length_singleton]
        omega
      intro l hl
      rcases List.mem_append.mp hl with hl | hl
      · exact hentries ls hkeys l hl
      rcases List.mem_cons.mp hl with rfl | hl
      · exact ⟨List.concat_ne_nil key header, hheader', by
          show (header ++ [key]).length ≤ keyLimit
          omega⟩
      · exact ih hheader' hkeys' (fun t ht => hnest t (List.mem_cons_of_mem _ ht)) hlength' l hl

/-- What is written of nested tables is a document that assigns just their entries. -/
theorem writes_nest (ls : Literals) (nest : List (String × Literals)) (hdistinct : Distinct ls nest)
    (hkeys : ∀ e ∈ ls, IsBare e.1) (hnest : ∀ t ∈ nest, IsBare t.1 ∧ ∀ e ∈ t.2, IsBare e.1)
    (hlength : nest.length ≤ keyLimit) :
    Writes (documentOf (nestLines [] ls nest)) (nest.map Prod.fst).inits
      (nestValues [] ls nest) := by
  have hwritable : ∀ l ∈ nestLines [] ls nest, IsWritable l.path :=
    writable_nestLines nofun hkeys hnest (by simpa using hlength)
  refine ⟨_, statements?_documentOf hwritable, ?_, assigns_nest⟩
  rw [build, Option.isSome_map]
  exact isSome_foldlM_nestLines [] ls nofun hdistinct

end Crossref.Toml
