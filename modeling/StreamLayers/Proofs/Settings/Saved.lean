import StreamLayers.Command.Run
import StreamLayers.Proofs.Toml.Document
import StreamLayers.Settings.Load

/-!
Settings that are shown, saved to a file and loaded again. What is shown names every field but those
that are null, and what is not named has its default when it is read. The default is null for the
directory of spill files, but not for the threshold of a replay buffer: so settings without a threshold
come back with one, and all others come back as they were.
-/

namespace StreamLayers

/-! Fields -/

theorem Value.toNat?_nat {n : Nat} (h : n < wordLimit) : (Value.nat n).toNat? = some n := by
  have hcast : (n : Int) < wordLimit := by exact_mod_cast h
  simp [Value.nat, Value.toNat?, hcast]

theorem Value.toOption?_of_ne_null {α : Type} {v : Value} (h : v ≠ .null) (f : Value → Option α) :
    v.toOption? f = (f v).map some := by
  cases v <;> simp_all [toOption?]

theorem Value.toOption?_nat {n : Nat} (h : n < wordLimit) :
    (Value.nat n).toOption? Value.toNat? = some (some n) := by
  have hnull : Value.nat n ≠ .null := by simp [Value.nat]
  rw [toOption?_of_ne_null hnull, toNat?_nat h, Option.map_some]

/-- An optional number: one that is not there has its default. -/
theorem Value.orDefault_nat {a : Option Nat} (h : ∀ n ∈ a, n < wordLimit) (d : Option Nat) :
    Value.orDefault d (Value.toOption? Value.toNat?) (a.map .nat) = some (a.or d) := by
  cases a with
  | none => rfl
  | some n =>
    rw [Option.map_some, orDefault, toOption?_nat (h n rfl)]
    rfl

/-- An optional number that is written as null where there is none. -/
theorem Value.toOption?_ofOption_nat {a : Option Nat} (h : ∀ n ∈ a, n < wordLimit) :
    (Value.ofOption .nat a).toOption? Value.toNat? = some a := by
  cases a with
  | none => rfl
  | some n => exact toOption?_nat (h n rfl)

theorem Value.toOption?_ofOption_text (a : Option String) :
    (Value.ofOption .text a).toOption? Value.toText? = some a := by
  cases a <;> rfl

theorem Value.orDefault_text (a : Option String) :
    Value.orDefault none (Value.toOption? Value.toText?) (a.map .text) = some a := by
  cases a <;> rfl

theorem Pipe.Strategy.ofValue?_word (s : Pipe.Strategy) :
    Pipe.Strategy.ofValue? (.text s.word) = some s := by
  cases s <;> simp [word, ofValue?, Value.toChoice?]

section Merge

variable (w : Value)

@[simp] theorem Value.merge_table (upper lower : List (String × Value)) :
    (Value.table upper).merge (.table lower) = .table (mergeEntries upper lower) := by
  rw [merge]

@[simp] theorem Value.merge_nat (n : Nat) : (Value.nat n).merge w = .nat n := by
  cases w <;> simp [nat, merge]

@[simp] theorem Value.merge_bool (b : Bool) : (Value.bool b).merge w = .bool b := by
  cases w <;> simp [merge]

@[simp] theorem Value.merge_text (s : String) : (Value.text s).merge w = .text s := by
  cases w <;> simp [merge]

end Merge

/-! Sections -/

theorem Pipe.Settings.ofValue?_table (exact : Bool) (v₁ v₂ v₃ v₄ : Value) :
    Pipe.Settings.ofValue? exact (.table [("buffer_size", v₁), ("chunk_size", v₂),
      ("strategy", v₃), ("join_on_close", v₄)]) = do
        return ⟨← v₁.toNat?, ← v₂.toNat?, ← Pipe.Strategy.ofValue? v₃, ← v₄.toBool?⟩ := by
  simp [ofValue?, Value.fields?, Value.orDefault]

theorem Tee.Settings.ofValue?_table (exact : Bool) (v₁ v₂ v₃ : Value) :
    Tee.Settings.ofValue? exact (.table [("close_sinks", v₁), ("drain_on_close", v₂),
      ("drain_chunk", v₃)]) = do return ⟨← v₁.toBool?, ← v₂.toBool?, ← v₃.toNat?⟩ := by
  simp [ofValue?, Value.fields?, Value.orDefault]

theorem Replay.Settings.ofValue?_table (exact : Bool) (threshold spillDir : Option Value)
    (v₃ v₄ : Value) :
    Replay.Settings.ofValue? exact (.table ((threshold.map ("threshold", ·)).toList ++
      (spillDir.map ("spill_dir", ·)).toList ++ [("retain_history", v₃), ("read_chunk", v₄)])) = do
        return ⟨← Value.orDefault (some Store.defaultThreshold) (Value.toOption? Value.toNat?) threshold,
          ← Value.orDefault none (Value.toOption? Value.toText?) spillDir, ← v₃.toBool?,
          ← v₄.toNat?⟩ := by
  cases threshold <;> cases spillDir <;> simp [ofValue?, Value.fields?, Value.orDefault]

theorem Pipe.Settings.ofValue?_toValue {c : Pipe.Settings} (hbuffer : c.bufferSize < wordLimit)
    (hchunk : c.chunkSize < wordLimit) (exact : Bool) :
    Pipe.Settings.ofValue? exact c.toValue = some c := by
  rw [toValue, ofValue?_table, Value.toNat?_nat hbuffer, Value.toNat?_nat hchunk,
    Pipe.Strategy.ofValue?_word]
  rfl

theorem Tee.Settings.ofValue?_toValue {c : Tee.Settings} (hchunk : c.drainChunk < wordLimit)
    (exact : Bool) : Tee.Settings.ofValue? exact c.toValue = some c := by
  rw [toValue, ofValue?_table, Value.toNat?_nat hchunk]
  rfl

theorem Marker.Settings.ofValue?_toValue (c : Marker.Settings) (exact : Bool) :
    Marker.Settings.ofValue? exact c.toValue = some c := by
  simp [ofValue?, toValue, Value.fields?, Value.orDefault, Value.toText?, Value.toBool?]

namespace Replay.Settings

/-- The settings that are read back: a threshold that is not written has its default again. -/
def restored (c : Replay.Settings) : Replay.Settings :=
  { c with threshold := c.threshold.or (some Store.defaultThreshold) }

/-- The entries that are written. -/
def written (c : Replay.Settings) : List (String × Value) :=
  (c.threshold.map fun n => ("threshold", .nat n)).toList ++
    (c.spillDir.map fun s => ("spill_dir", .text s)).toList ++
    [("retain_history", .bool c.retainHistory), ("read_chunk", .nat c.readChunk)]

theorem ofValue?_written {c : Replay.Settings} (hthreshold : ∀ n ∈ c.threshold, n < wordLimit)
    (hchunk : c.readChunk < wordLimit) (exact : Bool) :
    ofValue? exact (.table c.written) = some c.restored := by
  have htable := ofValue?_table exact (c.threshold.map .nat) (c.spillDir.map .text)
    (.bool c.retainHistory) (.nat c.readChunk)
  simp only [Option.map_map, Function.comp_def] at htable
  rw [written, htable, Value.orDefault_nat hthreshold, Value.orDefault_text, Value.toNat?_nat hchunk]
  rfl

theorem ofValue?_toValue {c : Replay.Settings} (hthreshold : ∀ n ∈ c.threshold, n < wordLimit)
    (hchunk : c.readChunk < wordLimit) (exact : Bool) : ofValue? exact c.toValue = some c := by
  have htable := ofValue?_table exact (some (.ofOption .nat c.threshold))
    (some (.ofOption .text c.spillDir)) (.bool c.retainHistory) (.nat c.readChunk)
  simp only [Value.orDefault] at htable
  rw [Value.toOption?_ofOption_nat hthreshold, Value.toOption?_ofOption_text,
    Value.toNat?_nat hchunk] at htable
  exact htable

/-- What is written, laid on the defaults, is the data of the restored settings. -/
theorem merge_written (c : Replay.Settings) :
    (Value.table c.written).merge (toValue {}) = c.restored.toValue := by
  rcases c with ⟨threshold, spillDir, retainHistory, readChunk⟩
  cases threshold <;> cases spillDir <;>
    simp [written, toValue, restored, Value.mergeEntries, Value.mergeEntry, Value.setEntry,
      List.lookup_cons, Value.ofOption]

end Replay.Settings

theorem Pipe.Settings.merge_toValue (c d : Pipe.Settings) :
    c.toValue.merge d.toValue = c.toValue := by
  simp [toValue, Value.mergeEntries, Value.mergeEntry, Value.setEntry, List.lookup_cons]

theorem Tee.Settings.merge_toValue (c d : Tee.Settings) :
    c.toValue.merge d.toValue = c.toValue := by
  simp [toValue, Value.mergeEntries, Value.mergeEntry, Value.setEntry, List.lookup_cons]

theorem Marker.Settings.merge_toValue (c d : Marker.Settings) :
    c.toValue.merge d.toValue = c.toValue := by
  simp [toValue, Value.mergeEntries, Value.mergeEntry, Value.setEntry, List.lookup_cons]

namespace Settings

open Toml

/-- The settings that are read back. -/
def restored (c : Settings) : Settings := { c with replay := c.replay.restored }

/-- The tables of the settings as they are written. -/
def sections (c : Settings) : List Section :=
  present [("replay", c.replay.toValue), ("pipe", c.pipe.toValue), ("tee", c.tee.toValue),
    ("marker", c.marker.toValue)]

theorem document_toValue (c : Settings) : document c.toValue = document (sectionTable c.sections) := by
  have htables : ∀ e ∈ [("replay", c.replay.toValue), ("pipe", c.pipe.toValue),
      ("tee", c.tee.toValue), ("marker", c.marker.toValue)], scalar? e.2 = none := by
    simp [Replay.Settings.toValue, Pipe.Settings.toValue, Tee.Settings.toValue,
      Marker.Settings.toValue, scalar?]
  exact document_present htables

/-- What is written. Only the section of the replay buffer depends on what is set. -/
theorem sections_eq (c : Settings) : c.sections = [⟨"replay", c.replay.written⟩,
    ⟨"pipe", [("buffer_size", .nat c.pipe.bufferSize), ("chunk_size", .nat c.pipe.chunkSize),
      ("strategy", .text c.pipe.strategy.word), ("join_on_close", .bool c.pipe.joinOnClose)]⟩,
    ⟨"tee", [("close_sinks", .bool c.tee.closeSinks), ("drain_on_close", .bool c.tee.drainOnClose),
      ("drain_chunk", .nat c.tee.drainChunk)]⟩,
    ⟨"marker", [("start", .text c.marker.start), ("stop", .text c.marker.stop),
      ("single_pair", .bool c.marker.singlePair)]⟩] := by
  rcases c with ⟨⟨threshold, spillDir, retainHistory, readChunk⟩, pipe, tee, marker⟩
  cases threshold <;> cases spillDir <;>
    simp [sections, present, Replay.Settings.toValue, Replay.Settings.written,
      Pipe.Settings.toValue, Tee.Settings.toValue, Marker.Settings.toValue, scalar?, Value.ofOption,
      Value.nat]

theorem sectionTable_sections (c : Settings) :
    sectionTable c.sections = .table [("replay", .table c.replay.written), ("pipe", c.pipe.toValue),
      ("tee", c.tee.toValue), ("marker", c.marker.toValue)] := by
  simp [sectionTable, sections_eq, Section.entry, Pipe.Settings.toValue, Tee.Settings.toValue,
    Marker.Settings.toValue]

theorem ofValue?_table (exact : Bool) (v₁ v₂ v₃ v₄ : Value) :
    ofValue? exact (.table [("replay", v₁), ("pipe", v₂), ("tee", v₃), ("marker", v₄)]) = do
      return ⟨← Replay.Settings.ofValue? exact v₁, ← Pipe.Settings.ofValue? exact v₂,
        ← Tee.Settings.ofValue? exact v₃, ← Marker.Settings.ofValue? exact v₄⟩ := by
  simp [ofValue?, Value.fields?, Value.orDefault]

theorem merge_sections (c : Settings) :
    (sectionTable c.sections).merge (toValue {}) = c.restored.toValue := by
  simp [sectionTable_sections, toValue, restored, Value.mergeEntries, Value.mergeEntry,
    Value.setEntry, List.lookup_cons, Replay.Settings.merge_written, Pipe.Settings.merge_toValue,
    Tee.Settings.merge_toValue, Marker.Settings.merge_toValue]

theorem names_sections (c : Settings) :
    c.sections.map Section.name = ["replay", "pipe", "tee", "marker"] := by
  simp [sections_eq]

theorem regular_written (c : Replay.Settings) : (Section.mk "replay" c.written).Regular := by
  have hbare : Bare "replay" ∧ Bare "threshold" ∧ Bare "spill_dir" ∧ Bare "retain_history" ∧
    Bare "read_chunk" := by decide
  rcases c with ⟨threshold, spillDir, retainHistory, readChunk⟩
  constructor
  · exact hbare.1
  · cases threshold <;> cases spillDir <;>
      simp [Replay.Settings.written, hbare, Setting.bool, Setting.nat, Setting.text]
  · cases threshold <;> cases spillDir <;> simp [Replay.Settings.written]

theorem regular_sections (c : Settings) : ∀ s ∈ c.sections, s.Regular := by
  have hpipe : Bare "pipe" ∧ Bare "buffer_size" ∧ Bare "chunk_size" ∧ Bare "strategy" ∧
    Bare "join_on_close" := by decide
  have htee : Bare "tee" ∧ Bare "close_sinks" ∧ Bare "drain_on_close" ∧ Bare "drain_chunk" := by
    decide
  have hmarker : Bare "marker" ∧ Bare "start" ∧ Bare "stop" ∧ Bare "single_pair" := by decide
  rw [sections_eq]
  simp only [List.forall_mem_cons, List.not_mem_nil, false_implies, implies_true, and_true]
  refine ⟨regular_written c.replay, ⟨hpipe.1, ?_, ?_⟩, ⟨htee.1, ?_, ?_⟩, ⟨hmarker.1, ?_, ?_⟩⟩
  · simp [hpipe, Setting.bool, Setting.nat, Setting.text]
  · simp
  · simp [htee, Setting.bool, Setting.nat]
  · simp
  · simp [hmarker, Setting.bool, Setting.text]
  · simp

theorem fits_sections (c : Settings) :
    c.sections.all Section.fits = true ↔ ∀ n ∈ c.sizes, n < signedLimit := by
  rcases c with ⟨⟨threshold, spillDir, retainHistory, readChunk⟩, pipe, tee, marker⟩
  cases threshold <;> cases spillDir <;>
    simp [sections_eq, Replay.Settings.written, Section.fits, sizes, and_assoc]

/-! Reading what was written -/

theorem parse?_toValue (c : Settings) : parse? (document c.toValue) =
    if ∀ n ∈ c.sizes, n < signedLimit then some (sectionTable c.sections) else none := by
  have hdistinct : (c.sections.map Section.name).Nodup := by
    rw [names_sections]
    decide
  rw [document_toValue, parse?_document (regular_sections c) hdistinct]
  simp only [fits_sections]

/-- The sizes fit 64-bit words. -/
structure Sized (c : Settings) : Prop where
  threshold : ∀ n ∈ c.replay.threshold, n < wordLimit
  readChunk : c.replay.readChunk < wordLimit
  bufferSize : c.pipe.bufferSize < wordLimit
  chunkSize : c.pipe.chunkSize < wordLimit
  drainChunk : c.tee.drainChunk < wordLimit

theorem sized_of_sizes {c : Settings} (h : ∀ n ∈ c.sizes, n < signedLimit) : c.Sized := by
  have hlimit : signedLimit < wordLimit := by decide
  have hword : ∀ n ∈ c.sizes, n < wordLimit := fun n hn => Nat.lt_trans (h n hn) hlimit
  constructor
  · exact fun n hn => hword n (by simp [sizes, Option.mem_def.1 hn])
  all_goals exact hword _ (by simp [sizes])

theorem ofValue?_toValue {c : Settings} (h : c.Sized) (exact : Bool) :
    ofValue? exact c.toValue = some c := by
  rw [toValue, ofValue?_table, Replay.Settings.ofValue?_toValue h.threshold h.readChunk,
    Pipe.Settings.ofValue?_toValue h.bufferSize h.chunkSize,
    Tee.Settings.ofValue?_toValue h.drainChunk, Marker.Settings.ofValue?_toValue]
  rfl

theorem ofValue?_sections {c : Settings} (h : c.Sized) (exact : Bool) :
    ofValue? exact (sectionTable c.sections) = some c.restored := by
  rw [sectionTable_sections, ofValue?_table,
    Replay.Settings.ofValue?_written h.threshold h.readChunk,
    Pipe.Settings.ofValue?_toValue h.bufferSize h.chunkSize,
    Tee.Settings.ofValue?_toValue h.drainChunk, Marker.Settings.ofValue?_toValue]
  rfl

theorem Sized.restored {c : Settings} (h : c.Sized) : c.restored.Sized := by
  have hthreshold : ∀ n ∈ c.restored.replay.threshold, n < wordLimit := by
    intro n hn
    rcases Option.or_eq_some_iff.1 hn with hn | ⟨-, hn⟩
    · exact h.threshold n hn
    · obtain rfl := Option.some.inj hn
      decide
  exact { h with threshold := hthreshold }

/-- A file lies on the defaults, and without variables nothing lies on the file. -/
theorem load_of_parse? {text : String} {v : Value} (hparse : parse? text = some v)
    {entries : List (String × Value)} (hmerge : v.merge (toValue {}) = .table entries) :
    load (some text) [] = ofData (.table entries) := by
  simp [load, hparse, hmerge, Environment.toValue, Value.mergeEntries]

/-- The document of valid settings loads as the restored settings. -/
theorem load_document {c : Settings} (hvalid : c.validate = .ok ()) :
    load (some (document c.toValue)) [] =
      if ∀ n ∈ c.sizes, n < signedLimit then .ok c.restored else .error .unreadable := by
  by_cases hsizes : ∀ n ∈ c.sizes, n < signedLimit
  · have hparse := parse?_toValue c
    rw [if_pos hsizes] at hparse ⊢
    have hread := ofValue?_toValue (sized_of_sizes hsizes).restored false
    have hrestored : c.restored.validate = .ok () := hvalid
    rw [load_of_parse? hparse (merge_sections c), ← toValue, ofData, hread]
    simp only [hrestored]
  · have hparse := parse?_toValue c
    rw [if_neg hsizes] at hparse ⊢
    simp [load, hparse]

theorem ofValue?_document (c : Settings) : (parse? (document c.toValue)).bind (ofValue? false) =
    if ∀ n ∈ c.sizes, n < signedLimit then some c.restored else none := by
  rw [parse?_toValue]
  split
  · exact ofValue?_sections (sized_of_sizes ‹_›) false
  · rfl

theorem restored_eq_self {c : Settings} : c.restored = c ↔ c.replay.threshold ≠ none := by
  rcases c with ⟨⟨threshold, spillDir, retainHistory, readChunk⟩, pipe, tee, marker⟩
  cases threshold <;> simp [restored, Replay.Settings.restored]

theorem plainText_bool (b : Bool) : ∃ text, plainText (.bool b) = text ++ ['e'] := by
  cases b with
  | false => exact ⟨"fals".toList, by simp [plainText, scalar?]⟩
  | true => exact ⟨"tru".toList, by simp [plainText, scalar?]⟩

/-- What is shown ends in a letter and the end of its line. -/
theorem document_eq_append (c : Settings) :
    ∃ text, (document c.toValue).toList = text ++ ['e', '\n'] := by
  obtain ⟨word, hword⟩ := plainText_bool c.marker.singlePair
  obtain ⟨ls, hls⟩ := sectionLines_concat c.sections.dropLast ⟨"marker",
    [("start", .text c.marker.start), ("stop", .text c.marker.stop),
      ("single_pair", .bool c.marker.singlePair)]⟩
  have hsections : c.sections.dropLast ++ [⟨"marker", [("start", .text c.marker.start),
      ("stop", .text c.marker.stop), ("single_pair", .bool c.marker.singlePair)]⟩] = c.sections := by
    simp [sections_eq]
  rw [hsections] at hls
  rw [document_toValue, toList_document (regular_sections c), hls]
  refine ⟨ls.flatMap Line.text ++ ((Line.header "marker").text ++
    (Line.entry "start" (.text c.marker.start)).text ++
    (Line.entry "stop" (.text c.marker.stop)).text ++ "single_pair = ".toList ++ word), ?_⟩
  simp [Section.lines, Line.text, hword]

/-- Saved from the screen, the settings are the document again. -/
theorem trimmed_document (c : Settings) :
    Command.trimmed (document c.toValue) ++ "\n" = document c.toValue := by
  obtain ⟨text, htext⟩ := document_eq_append c
  have htrim : Text.trimEnd (text ++ ['e', '\n']) = text ++ ['e'] := by
    have hletter : Text.isBlank 'e' = false := by decide
    have hline : Text.isBlank '\n' = true := by decide
    simp [Text.trimEnd, Text.trimStart, hletter, hline]
  rw [← String.toList_inj, Command.trimmed, htext, htrim]
  simp

/-- Valid settings that are shown, saved and loaded come back with every field as it was, but for a
threshold that is not set: it is not written and has its default again. So nothing changes if and only
if a threshold is set; and if a size is beyond signed 64-bit words, nothing is read at all. -/
theorem load_saved {c : Settings} (hvalid : c.validate = .ok ()) :
    let shown := Command.showSettings c .toml
    let saved := Command.trimmed shown ++ "\n"
    ((parse? shown).bind (ofValue? false) =
        if ∀ n ∈ c.sizes, n < signedLimit then some c.restored else none) ∧
      (load (some saved) [] =
        if ∀ n ∈ c.sizes, n < signedLimit then .ok c.restored else .error .unreadable) ∧
      (load (some saved) [] = .ok c ↔
        (∀ n ∈ c.sizes, n < signedLimit) ∧ c.replay.threshold ≠ none) := by
  have hload := load_document hvalid
  simp only [Command.showSettings, trimmed_document]
  refine ⟨ofValue?_document c, hload, ?_⟩
  rw [hload, ← restored_eq_self]
  by_cases hsizes : ∀ n ∈ c.sizes, n < signedLimit
  · rw [if_pos hsizes]
    exact ⟨fun h => ⟨hsizes, Except.ok.inj h⟩, fun h => congrArg _ h.2⟩
  · rw [if_neg hsizes]
    simp [hsizes]

/-- The largest size that is read, and texts that need all kinds of quotes, come back. -/
theorem load_saved_quoted :
    let c : Settings :=
      { replay := { threshold := some 9223372036854775807, spillDir := some "a\\b" }
        marker := { start := "\"\"\"\n\t", stop := "\r" } }
    c.validate = .ok () ∧
      load (some (Command.trimmed (Command.showSettings c .toml) ++ "\n")) [] = .ok c := by
  intro c
  have hvalid : c.validate = .ok () := rfl
  have hsizes : ∀ n ∈ c.sizes, n < signedLimit := by decide
  have hthreshold : c.replay.threshold ≠ none := by simp [c]
  exact ⟨hvalid, (load_saved hvalid).2.2.2 ⟨hsizes, hthreshold⟩⟩

/-- Settings that keep everything in memory are valid, and come back as settings that spill. -/
theorem load_saved_unset :
    let c : Settings := { replay := { threshold := none } }
    let shown := Command.showSettings c .toml
    c.validate = .ok () ∧ c ≠ {} ∧ (parse? shown).bind (ofValue? false) = some {} ∧
      load (some (Command.trimmed shown ++ "\n")) [] = .ok {} := by
  intro c shown
  have hvalid : c.validate = .ok () := rfl
  have hsizes : ∀ n ∈ c.sizes, n < signedLimit := by decide
  have hread := ofValue?_document c
  rw [if_pos hsizes] at hread
  have hload := load_document hvalid
  rw [if_pos hsizes, ← trimmed_document] at hload
  exact ⟨hvalid, by decide, hread, hload⟩

end Settings

end StreamLayers
