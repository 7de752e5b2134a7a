import StreamLayers.Proofs.Toml.Scalars
import Mathlib.Data.List.TakeDrop

/-!
Documents of sections survive being written: the reader takes the lines one after the other, every
line does to the draft what the printer meant by it, and in the end the draft is the table that was
written. Only what is null is lost, and a number beyond signed 64-bit words spoils the whole document.
-/

namespace StreamLayers.Toml

/-! Keys -/

/-- A key that is written without quotes. -/
structure Bare (key : String) : Prop where
  nonempty : key ≠ ""
  bare : ∀ c ∈ key.toList, isBare c = true

instance (key : String) : Decidable (Bare key) :=
  decidable_of_iff (key ≠ "" ∧ key.toList.all isBare = true)
    ⟨fun h => ⟨h.1, List.all_eq_true.1 h.2⟩, fun h => ⟨h.nonempty, List.all_eq_true.2 h.bare⟩⟩

theorem ne_of_isBare {c d : Char} (hc : isBare c = true) (hd : isBare d = false) : c ≠ d := by
  rintro rfl
  simp [hc] at hd

theorem isBlank_of_isBare {c : Char} (hc : isBare c = true) : isBlank c = false := by
  have hspace : c ≠ ' ' := ne_of_isBare hc (by decide)
  have htab : c ≠ '\t' := ne_of_isBare hc (by decide)
  simp [isBlank, hspace, htab]

theorem Bare.toList_cons {key : String} (h : Bare key) :
    ∃ c cs, key.toList = c :: cs ∧ isBare c = true ∧ ∀ d ∈ cs, isBare d = true := by
  have hall := h.bare
  rcases hkey : key.toList with _ | ⟨c, cs⟩
  · exact absurd (String.toList_eq_nil_iff.1 hkey) h.nonempty
  · rw [hkey] at hall
    exact ⟨c, cs, rfl, List.forall_mem_cons.1 hall⟩

theorem skipBlanks_cons {c : Char} (hc : isBlank c = false) (text : List Char) :
    skipBlanks (c :: text) = c :: text := by
  simp [skipBlanks, hc]

theorem keyPart?_append {key : String} (h : Bare key) {rest : List Char}
    (hend : rest.head?.any isBare = false) : keyPart? (key.toList ++ rest) = some (key, rest) := by
  obtain ⟨d, ds, heq, hd, hds⟩ := h.toList_cons
  have hshort : shortString? (key.toList ++ rest) = none := by
    have hdouble : d ≠ '"' := ne_of_isBare hd (by decide)
    have hsingle : d ≠ '\'' := ne_of_isBare hd (by decide)
    simp [heq, shortString?, hdouble, hsingle]
  have hspan : (key.toList ++ rest).span isBare = (key.toList, rest) := by
    have hnone : rest.takeWhile isBare = [] ∧ rest.dropWhile isBare = rest := by
      rcases rest with _ | ⟨c, rest⟩ <;> simp_all
    rw [List.span_eq_takeWhile_dropWhile, List.takeWhile_append_of_pos h.bare,
      List.dropWhile_append_of_pos h.bare, hnone.1, hnone.2, List.append_nil]
  simp only [keyPart?, hshort, hspan]
  split
  · simp_all
  · simp_all [← String.toList_inj]

theorem skipBlanks_space (text : List Char) : skipBlanks (' ' :: text) = skipBlanks text := by
  simp [skipBlanks, isBlank]

/-- A key reads up to the first character that cannot be part of it, and that is no point. -/
theorem keyParts?_append {key : String} (h : Bare key) {rest : List Char}
    (hend : rest.head?.any isBare = false) {c : Char} {text : List Char}
    (hrest : skipBlanks rest = c :: text) (hpoint : c ≠ '.') (room : Nat) :
    keyParts? (room + 1) (key.toList ++ rest) = some ([key], c :: text) := by
  have hblank : skipBlanks (key.toList ++ rest) = key.toList ++ rest := by
    obtain ⟨d, ds, heq, hd, -⟩ := h.toList_cons
    rw [heq]
    exact skipBlanks_cons (isBlank_of_isBare hd) _
  simp [keyParts?, hblank, keyPart?_append h hend, hrest, hpoint]

/-! Lines -/

/-- A line of a document. -/
inductive Line where
  | blank
  | header (name : String)
  | entry (key : String) (v : Value)

namespace Line

/-- The text of a line, with its end. -/
def text : Line → List Char
  | blank => ['\n']
  | header name => '[' :: (name.toList ++ [']', '\n'])
  | entry key v => key.toList ++ (" = ".toList ++ (plainText v ++ ['\n']))

/-- A line that the printer writes for settings. -/
def Regular : Line → Prop
  | blank => True
  | header name => Bare name
  | entry key v => Bare key ∧ Setting v

/-- What a line does to a document. -/
def take (d : Draft) : Line → Option Draft
  | blank => some d
  | header name => (d.fields.openTable [name]).map (⟨·, [name]⟩)
  | entry key v => if fits v then d.add [key] v else none

theorem text_ne_nil (l : Line) : l.text ≠ [] := by
  cases l <;> simp [text]

end Line

theorem endLine?_cons (rest : List Char) : endLine? ('\n' :: rest) = some rest := by
  simp [endLine?, skipBlanks, isBlank, newline?]

theorem line_header {name : String} (h : Bare name) (fuel : Nat) (d : Draft) (rest : List Char) :
    d.line fuel ((Line.header name).text ++ rest) = ((Line.header name).take d).map (·, rest) := by
  have hkey : key? (name.toList ++ ']' :: '\n' :: rest) = some ([name], ']' :: '\n' :: rest) :=
    keyParts?_append h (by simp [isBare]) (skipBlanks_cons (by decide) _) (by decide) _
  obtain ⟨c, cs, heq, hc, -⟩ := h.toList_cons
  have hdouble : c ≠ '[' := ne_of_isBare hc (by decide)
  have hstep : d.line fuel ('[' :: (name.toList ++ ']' :: '\n' :: rest)) =
      (d.fields.openTable [name]).bind fun fields => some (⟨fields, [name]⟩, rest) := by
    rw [Draft.line.eq_def]
    split <;> simp_all [expect?, endLine?_cons]
  simp only [Line.text, Line.take, List.cons_append, List.append_assoc, List.nil_append, hstep]
  cases d.fields.openTable [name] <;> rfl

/-- The key of an entry reads up to its value. -/
theorem assignment?_entry {key : String} (h : Bare key) {v : Value} (hv : Setting v)
    (rest : List Char) :
    assignment? (key.toList ++ ' ' :: '=' :: ' ' :: (plainText v ++ '\n' :: rest)) =
      some ([key], plainText v ++ '\n' :: rest) := by
  obtain ⟨first, text, htext, hfirst⟩ := hv.plainText_cons
  have hkey : key? (key.toList ++ ' ' :: '=' :: ' ' :: (plainText v ++ '\n' :: rest)) =
      some ([key], '=' :: ' ' :: (plainText v ++ '\n' :: rest)) :=
    keyParts?_append h (by simp [isBare]) (by simp [skipBlanks, isBlank]) (by decide) _
  have hblank : skipBlanks (' ' :: (plainText v ++ '\n' :: rest)) = plainText v ++ '\n' :: rest := by
    rw [htext, List.cons_append, skipBlanks_space, skipBlanks_cons hfirst]
  simp [assignment?, hkey, expect?, hblank]

theorem line_entry {key : String} {v : Value} (h : Bare key) (hv : Setting v) {fuel : Nat}
    (hfuel : fuel ≠ 0) (d : Draft) (rest : List Char) :
    d.line fuel ((Line.entry key v).text ++ rest) = ((Line.entry key v).take d).map (·, rest) := by
  obtain ⟨fuel, rfl⟩ := Nat.exists_eq_succ_of_ne_zero hfuel
  have hassign := assignment?_entry h hv rest
  have hvalue := hv.value_plainText fuel depthLimit rest
  obtain ⟨c, cs, heq, hc, -⟩ := h.toList_cons
  have hopen : c ≠ '[' := ne_of_isBare hc (by decide)
  have hstep : d.line (fuel + 1)
        (key.toList ++ ' ' :: '=' :: ' ' :: (plainText v ++ '\n' :: rest)) =
      if fits v then (d.add [key] v).bind fun d => some (d, rest) else none := by
    rw [Draft.line.eq_def]
    rw [heq] at hassign ⊢
    simp only [List.cons_append] at hassign ⊢
    split
    · simp_all
    · simp_all
    · simp only [hassign, hvalue, Option.bind_eq_bind, Option.bind_some]
      split <;> simp [endLine?_cons]
  have htext : (Line.entry key v).text ++ rest =
      key.toList ++ ' ' :: '=' :: ' ' :: (plainText v ++ '\n' :: rest) := by
    simp [Line.text]
  rw [htext, hstep, Line.take]
  split
  · cases d.add [key] v <;> rfl
  · rfl

/-- A line is taken off the front. Its value needs some fuel too. -/
theorem lines_step {l : Line} (h : l.Regular) {fuel : Nat} (hfuel : fuel ≠ 0) (d : Draft)
    (rest : List Char) :
    Draft.lines (fuel + 1) d (l.text ++ rest) = (l.take d).bind fun d => Draft.lines fuel d rest := by
  -- headers and entries begin with neither a blank nor the end of a line
  have hstep {c : Char} {text : List Char} (hc : isBlank c = false ∧ c ≠ '#' ∧ c ≠ '\n' ∧ c ≠ '\r')
      (htext : l.text = c :: text) (hline : d.line fuel (l.text ++ rest) = (l.take d).map (·, rest)) :
      Draft.lines (fuel + 1) d (l.text ++ rest) =
        (l.take d).bind fun d => Draft.lines fuel d rest := by
    obtain ⟨hblank, hother⟩ := hc
    rw [htext] at hline ⊢
    rw [List.cons_append] at hline ⊢
    rw [Draft.lines, skipBlanks_cons hblank]
    simp only [hother, or_self, if_false, hline]
    cases l.take d <;> rfl
  cases l with
  | blank => simp [Line.text, Line.take, Draft.lines, skipBlanks, isBlank, endLine?_cons]
  | header name => exact hstep (by decide) rfl (line_header h fuel d rest)
  | entry key v =>
    obtain ⟨c, cs, heq, hc, -⟩ := h.1.toList_cons
    have hother : isBlank c = false ∧ c ≠ '#' ∧ c ≠ '\n' ∧ c ≠ '\r' :=
      ⟨isBlank_of_isBare hc, ne_of_isBare hc (by decide), ne_of_isBare hc (by decide),
        ne_of_isBare hc (by decide)⟩
    have htext : (Line.entry key v).text = c :: (cs ++ (" = ".toList ++ (plainText v ++ ['\n']))) := by
      simp [Line.text, heq]
    exact hstep hother htext (line_entry h.1 h.2 hfuel d rest)

/-- A document is read line by line. -/
theorem lines_flatMap {ls : List Line} (h : ∀ l ∈ ls, l.Regular) {fuel : Nat}
    (hfuel : ls.length < fuel) (d : Draft) :
    Draft.lines fuel d (ls.flatMap Line.text) = ls.foldlM Line.take d := by
  induction ls generalizing fuel d with
  | nil =>
    obtain ⟨fuel, rfl⟩ := Nat.exists_eq_succ_of_ne_zero (Nat.ne_of_gt hfuel)
    simp [Draft.lines, skipBlanks]
  | cons l ls ih =>
    obtain ⟨hl, hls⟩ := List.forall_mem_cons.1 h
    obtain ⟨fuel, rfl⟩ := Nat.exists_eq_succ_of_ne_zero (by omega : fuel ≠ 0)
    rw [List.length_cons] at hfuel
    rw [List.flatMap_cons, lines_step hl (by omega), List.foldlM_cons]
    cases l.take d with
    | none => rfl
    | some d => exact ih hls (by omega) d

/-! Sections -/

section Entries

variable {α : Type} {key : String} {fields : List (String × α)}

theorem lookup_cons_eq_none {f : String × α} :
    (f :: fields).lookup key = none ↔ f.1 ≠ key ∧ fields.lookup key = none := by
  by_cases hkey : f.1 = key
  · simp [hkey]
  · simp [hkey, Ne.symm hkey]

theorem lookup_append_single (h : fields.lookup key = none) (a : α) :
    (fields ++ [(key, a)]).lookup key = some a := by
  simp [List.lookup_append, h]

theorem lookup_append_of_ne {k : String} (h : fields.lookup k = none) (hne : k ≠ key) (a : α) :
    (fields ++ [(key, a)]).lookup k = none := by
  simp [List.lookup_append, h, List.lookup_cons, beq_false_of_ne hne]

theorem setEntry_of_lookup (h : fields.lookup key = none) (a : α) :
    Value.setEntry key a fields = fields ++ [(key, a)] := by
  induction fields with
  | nil => simp [Value.setEntry]
  | cons f fields ih =>
    obtain ⟨hne, hrest⟩ := lookup_cons_eq_none.1 h
    simp [Value.setEntry, hne, ih hrest]

theorem setEntry_append_single (h : fields.lookup key = none) (a b : α) :
    Value.setEntry key b (fields ++ [(key, a)]) = fields ++ [(key, b)] := by
  induction fields with
  | nil => simp [Value.setEntry]
  | cons f fields ih =>
    obtain ⟨hne, hrest⟩ := lookup_cons_eq_none.1 h
    simp [Value.setEntry, hne, ih hrest]

end Entries

/-- Finished entries as parts of a document. -/
def parts (entries : List (String × Value)) : Fields := entries.map fun (k, v) => (k, .value v)

theorem fieldValues_parts (entries : List (String × Value)) :
    fieldValues (parts entries) = entries := by
  induction entries with
  | nil => rfl
  | cons e entries ih => simpa [parts, fieldValues, Node.toValue] using ih

/-- The draft in the middle of a section. -/
def within (fields : Fields) (name : String) (entries : Fields) : Draft :=
  ⟨fields ++ [(name, .table false false entries)], [name]⟩

section Take

variable {fields : Fields} {name : String}

theorem take_header (hname : fields.lookup name = none) (header : List String) :
    (Line.header name).take ⟨fields, header⟩ = some (within fields name []) := by
  simp [Line.take, Fields.openTable, Fields.descend, hname, Fields.set, setEntry_of_lookup, within]

theorem take_entry (hname : fields.lookup name = none) {entries : Fields} {key : String}
    (hkey : entries.lookup key = none) (v : Value) :
    (Line.entry key v).take (within fields name entries) =
      if fits v then some (within fields name (entries ++ [(key, .value v)])) else none := by
  simp [Line.take, within, Draft.add, Fields.add, Fields.descend, Fields.set,
    lookup_append_single hname, setEntry_append_single hname, hkey, setEntry_of_lookup hkey]

theorem foldlM_entries (hname : fields.lookup name = none) {entries : Fields}
    {more : List (String × Value)} (hmore : ∀ e ∈ more, entries.lookup e.1 = none)
    (hdistinct : (more.map Prod.fst).Nodup) :
    (more.map fun (k, v) => Line.entry k v).foldlM Line.take (within fields name entries) =
      if more.all (fits ·.2) then some (within fields name (entries ++ parts more)) else none := by
  induction more generalizing entries with
  | nil => simp [parts]
  | cons e more ih =>
    obtain ⟨hhead, htail⟩ := List.forall_mem_cons.1 hmore
    obtain ⟨hnew, hrest⟩ := List.nodup_cons.1 hdistinct
    have hlater : ∀ f ∈ more, (entries ++ [(e.1, Node.value e.2)]).lookup f.1 = none := by
      intro f hf
      exact lookup_append_of_ne (htail f hf) (fun h => hnew (List.mem_map.2 ⟨f, hf, h⟩)) _
    have hparts : entries ++ parts (e :: more) = entries ++ [(e.1, .value e.2)] ++ parts more := by
      simp [parts]
    rw [List.map_cons, List.foldlM_cons, take_entry hname hhead, List.all_cons, hparts]
    cases fits e.2 with
    | false => rfl
    | true => exact ih hlater hrest

end Take

/-- A section: its name and its plain entries. -/
structure Section where
  name : String
  entries : List (String × Value)

namespace Section

/-- What the printer needs to know of a section, and the reader to take it. -/
structure Regular (s : Section) : Prop where
  name : Bare s.name
  entries : ∀ e ∈ s.entries, Bare e.1 ∧ Setting e.2
  distinct : (s.entries.map Prod.fst).Nodup

/-- A section as an entry of a table. -/
def entry (s : Section) : String × Value := (s.name, .table s.entries)

/-- A section as a part of a document. -/
def part (s : Section) : String × Node := (s.name, .table false false (parts s.entries))

/-- Whether all values of a section fit. -/
def fits (s : Section) : Bool := s.entries.all (Toml.fits ·.2)

/-- The lines of a section. -/
def lines (s : Section) : List Line := .header s.name :: s.entries.map fun (k, v) => .entry k v

/-- A section adds one part. -/
theorem foldlM_lines {s : Section} (h : s.Regular) {fields : Fields}
    (hname : fields.lookup s.name = none) (header : List String) :
    s.lines.foldlM Line.take ⟨fields, header⟩ =
      if s.fits then some ⟨fields ++ [s.part], [s.name]⟩ else none := by
  rw [lines, List.foldlM_cons, take_header hname]
  exact foldlM_entries hname (by simp) h.distinct

theorem regular_lines {s : Section} (h : s.Regular) : ∀ l ∈ s.lines, l.Regular := by
  intro l hl
  rcases List.mem_cons.1 hl with rfl | hl
  · exact h.name
  · obtain ⟨e, he, rfl⟩ := List.mem_map.1 hl
    exact h.entries e he

end Section

/-- The lines of a document, with a blank one between sections. -/
def sectionLines : List Section → List Line
  | [] => []
  | [s] => s.lines
  | s :: t :: rest => s.lines ++ .blank :: sectionLines (t :: rest)

/-- A document ends with the lines of its last section. -/
theorem sectionLines_concat (ss : List Section) (s : Section) :
    ∃ ls, sectionLines (ss ++ [s]) = ls ++ s.lines := by
  fun_induction sectionLines ss with
  | case1 => exact ⟨[], rfl⟩
  | case2 t => exact ⟨t.lines ++ [.blank], by simp [sectionLines]⟩
  | case3 t u rest ih =>
    obtain ⟨ls, hls⟩ := ih
    exact ⟨t.lines ++ .blank :: ls, by simp_all [sectionLines]⟩

theorem regular_sectionLines {ss : List Section} (h : ∀ s ∈ ss, s.Regular) :
    ∀ l ∈ sectionLines ss, l.Regular := by
  fun_induction sectionLines ss with
  | case1 => simp
  | case2 s => exact Section.regular_lines (h s (by simp))
  | case3 s t rest ih =>
    obtain ⟨hs, hrest⟩ := List.forall_mem_cons.1 h
    intro l hl
    rcases List.mem_append.1 hl with hl | hl
    · exact Section.regular_lines hs l hl
    rcases List.mem_cons.1 hl with rfl | hl
    · trivial
    · exact ih hrest l hl

theorem foldlM_sectionLines {ss : List Section} (h : ∀ s ∈ ss, s.Regular)
    (hdistinct : (ss.map Section.name).Nodup) {fields : Fields}
    (hnew : ∀ s ∈ ss, fields.lookup s.name = none) (header : List String) :
    ((sectionLines ss).foldlM Line.take ⟨fields, header⟩).map Draft.fields =
      if ss.all Section.fits then some (fields ++ ss.map Section.part) else none := by
  fun_induction sectionLines ss generalizing fields header with
  | case1 => simp
  | case2 s =>
    rw [Section.foldlM_lines (h s (by simp)) (hnew s (by simp))]
    cases hfits : s.fits <;> simp [hfits]
  | case3 s t rest ih =>
    obtain ⟨hs, hrest⟩ := List.forall_mem_cons.1 h
    obtain ⟨hname, hmore⟩ := List.forall_mem_cons.1 hnew
    obtain ⟨hnot, hlater⟩ := List.nodup_cons.1 hdistinct
    have hfresh : ∀ u ∈ t :: rest, (fields ++ [s.part]).lookup u.name = none := by
      intro u hu
      exact lookup_append_of_ne (hmore u hu) (fun h => hnot (List.mem_map.2 ⟨u, hu, h⟩)) _
    rw [List.foldlM_append, Section.foldlM_lines hs hname, List.all_cons]
    cases hfits : s.fits with
    | false => rfl
    | true =>
      have hnext := ih hrest hlater hfresh [s.name]
      simpa [Line.take] using hnext

/-! Documents -/

/-- A table of sections. -/
def sectionTable (ss : List Section) : Value := .table (ss.map Section.entry)

/-- A plain value has a text. -/
theorem Setting.scalar?_eq {v : Value} (h : Setting v) :
    scalar? v = some (String.ofList (plainText v)) := by
  cases h <;> simp [plainText, scalar?, Value.nat]

theorem toList_lines {entries : List (String × Value)} (h : ∀ e ∈ entries, Setting e.2) :
    (lines entries).toList = (entries.map fun (k, v) => Line.entry k v).flatMap Line.text := by
  induction entries with
  | nil => simp [lines]
  | cons e entries ih =>
    obtain ⟨he, hrest⟩ := List.forall_mem_cons.1 h
    have hmore := ih hrest
    simp only [lines, String.toList_join] at hmore ⊢
    simp [he.scalar?_eq, hmore, Line.text]

/-- The text of a section. -/
def Section.text (s : Section) : String := "[" ++ s.name ++ "]\n" ++ Toml.lines s.entries

theorem Section.toList_text {s : Section} (h : s.Regular) :
    s.text.toList = s.lines.flatMap Line.text := by
  have hentries := toList_lines fun e he => (h.entries e he).2
  simp [text, hentries, lines, Line.text]

/-- Entries that are not plain have no lines. -/
theorem lines_eq_empty {entries : List (String × Value)} (h : ∀ e ∈ entries, scalar? e.2 = none) :
    lines entries = "" := by
  have hnone : entries.filterMap
      (fun (k, v) => (scalar? v).map fun text => k ++ " = " ++ text ++ "\n") = [] := by
    simpa [List.filterMap_eq_nil_iff] using h
  rw [lines, hnone, String.join_nil]

theorem document_sectionTable (ss : List Section) :
    document (sectionTable ss) = "\n".intercalate (ss.map Section.text) := by
  have hplain : lines (ss.map Section.entry) = "" :=
    lines_eq_empty (by simp [Section.entry, scalar?])
  have hsections : sections (ss.map Section.entry) = ss.map Section.text := by
    simp [sections, Section.entry, Section.text, List.filterMap_map, Function.comp_def]
  simp [document, sectionTable, hplain, hsections]

theorem toList_document {ss : List Section} (h : ∀ s ∈ ss, s.Regular) :
    (document (sectionTable ss)).toList = (sectionLines ss).flatMap Line.text := by
  rw [document_sectionTable]
  fun_induction sectionLines ss with
  | case1 => simp
  | case2 s => simp [Section.toList_text (h s (by simp))]
  | case3 s t rest ih =>
    obtain ⟨hs, hrest⟩ := List.forall_mem_cons.1 h
    have hmore := ih hrest
    simp_all [Section.toList_text hs, String.intercalate_cons_cons, Line.text]

theorem length_le_flatMap (ls : List Line) : ls.length ≤ (ls.flatMap Line.text).length := by
  induction ls with
  | nil => simp
  | cons l ls ih =>
    have hpos : 0 < l.text.length := List.length_pos_iff.2 l.text_ne_nil
    simp only [List.flatMap_cons, List.length_append, List.length_cons]
    omega

/-- No byte order mark is cut off a document that begins with a section. -/
theorem head_sectionLines (ss : List Section) :
    (sectionLines ss).flatMap Line.text = [] ∨
      ∃ text, (sectionLines ss).flatMap Line.text = '[' :: text := by
  fun_cases sectionLines ss <;> simp [Section.lines, Line.text]

theorem fieldValues_part (ss : List Section) :
    fieldValues (ss.map Section.part) = ss.map Section.entry := by
  induction ss with
  | nil => rfl
  | cons s ss ih =>
    simp [fieldValues, Section.part, Section.entry, Node.toValue, fieldValues_parts, ih]

/-- A document of sections reads as the table it was written from, if all its numbers fit; otherwise it
is refused. -/
theorem parse?_document {ss : List Section} (h : ∀ s ∈ ss, s.Regular)
    (hdistinct : (ss.map Section.name).Nodup) :
    parse? (document (sectionTable ss)) =
      if ss.all Section.fits then some (sectionTable ss) else none := by
  have hread : ((sectionLines ss).foldlM Line.take {}).map Draft.fields =
      if ss.all Section.fits then some (ss.map Section.part) else none :=
    foldlM_sectionLines h hdistinct (by simp) []
  have hlines : Draft.lines (((sectionLines ss).flatMap Line.text).length + 1) {}
      ((sectionLines ss).flatMap Line.text) = (sectionLines ss).foldlM Line.take {} :=
    lines_flatMap (regular_sectionLines h) (Nat.lt_succ_of_le (length_le_flatMap _)) {}
  have hparse : parse? (document (sectionTable ss)) =
      ((sectionLines ss).foldlM Line.take {}).bind fun d => some (.table (fieldValues d.fields)) := by
    rw [← hlines, parse?, toList_document h]
    rcases head_sectionLines ss with heq | ⟨text, heq⟩ <;> rw [heq] <;> simp
  rw [hparse]
  cases hfold : (sectionLines ss).foldlM Line.take {} with
  | none => simp_all
  | some d =>
    rw [hfold] at hread
    split at hread
    · simp_all [fieldValues_part, sectionTable]
    · simp at hread

/-- The sections that are written for a table of tables: what is null is left out. -/
def present : List (String × Value) → List Section
  | (k, .table fields) :: rest => ⟨k, fields.filter fun e => (scalar? e.2).isSome⟩ :: present rest
  | _ :: rest => present rest
  | [] => []

theorem lines_filter (entries : List (String × Value)) :
    lines (entries.filter fun e => (scalar? e.2).isSome) = lines entries := by
  induction entries with
  | nil => rfl
  | cons e entries ih =>
    simp only [lines] at ih
    cases hscalar : scalar? e.2 <;> simp [lines, hscalar, ih]

theorem sections_eq_map (entries : List (String × Value)) :
    sections entries = (present entries).map Section.text := by
  fun_induction present entries with
  | case1 k fields rest ih => simpa [sections, Section.text, lines_filter] using ih
  | case2 e rest hother ih =>
    rcases e with ⟨k, v⟩
    cases v <;> simp_all [sections]
  | case3 => rfl

/-- What is null leaves no trace in the text. -/
theorem document_present {entries : List (String × Value)}
    (h : ∀ e ∈ entries, scalar? e.2 = none) :
    document (.table entries) = document (sectionTable (present entries)) := by
  rw [document_sectionTable]
  simp [document, lines_eq_empty h, sections_eq_map]

end StreamLayers.Toml
