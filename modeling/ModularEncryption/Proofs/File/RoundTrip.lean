import ModularEncryption.Proofs.File.Reading

/-! # Files are read as they were written

A writer with settings that were accepted, and a reader whose sources find what the file calls for,
agree on every module of the file (`readFile_writeFile`). The two halves meet at the description of
the file by the writer's settings alone: the writer stores the file as they say
(`FileWriter.succeeds_writeFile`), and the reader comes to agree with them
(`FileReader.succeeds_readFile`). Columns are hidden only where nobody knows their own key. -/

namespace ModularEncryption

variable {σ : Type}

/-- A column of a reader that agrees with settings is hidden only if the sources lack its key, and
only if they find its key it is not. -/
theorem FileReader.Agrees.hides_iff {r : FileReader} {answer : Answering σ} {s : ReadSettings}
    {ws : WriteSettings} (h : r.Agrees answer s ws) {path : ColumnPath}
    (hregistered : (r.columns.get? path).isSome) :
    (r.hides path = true → ∃ key metadata, (ws.column path).protection = .ownKey key metadata ∧
      ∃ world, s.LacksKey answer (s.columnKey? path) metadata world) ∧
    (r.hides path = false → ∀ key metadata, (ws.column path).protection = .ownKey key metadata →
      ∃ world, s.FindsKey answer (s.columnKey? path) metadata world key) := by
  obtain ⟨c, hc⟩ := Option.isSome_iff_exists.mp hregistered
  have hagrees := h.columns path c hc
  unfold hides
  rw [hc]
  exact ⟨hagrees.lacksKey, fun hhidden _ _ hkey => hagrees.findsKey hhidden hkey⟩

/-- **Files**: whatever the accepted settings of the writer, a file that they admit is written, and
a reader whose sources find the writer's prefix, the key of an encrypted footer, and of each column
with a key of its own that key or that it is unknown, gives back the footer and all texts but those
of columns whose key was unknown. -/
theorem readFile_writeFile {d : WriteDraft} {e e' : Entropy} {ws : WriteSettings}
    (hbuild : d.build e = (.ok ws, e')) {s : ReadSettings} {answer : Answering σ}
    (hs : s.Finds answer ws) {file : PlainFile} (hfile : file.Admissible ws) (world : σ) :
    ∃ stored w r world',
      FileWriter.writeFile file (FileWriter.start ws) = (.ok stored, w) ∧
      FileReader.readFile answer stored (FileReader.start s, world) =
        (.ok ⟨file.footer, file.rowGroups.map fun chunks => chunks.map fun chunk =>
          if r.hides chunk.path then none else some chunk.texts⟩, (r, world')) ∧
      ∀ path ∈ file.paths,
        (r.hides path = true → ∃ key metadata, (ws.column path).protection = .ownKey key metadata ∧
          ∃ world, s.LacksKey answer (s.columnKey? path) metadata world) ∧
        (r.hides path = false → ∀ key metadata,
          (ws.column path).protection = .ownKey key metadata →
            ∃ world, s.FindsKey answer (s.columnKey? path) metadata world key) := by
  have hws : ws.Keyed := WriteDraft.keyed_of_build hbuild
  obtain ⟨stored, w, hwrite, hstored, -⟩ :=
    FileWriter.succeeds_writeFile (FileWriter.follows_start ws) hws hfile
  obtain ⟨_, ⟨r, world'⟩, hread, rfl, hagrees, hregistered⟩ :=
    FileReader.succeeds_readFile hs hws hstored hfile.nodup_paths hfile.mem_paths world
  exact ⟨stored, w, r, world', hwrite, hread, fun path hpath =>
    hagrees.hides_iff (hregistered path hpath)⟩

/-! ### A file with a hidden column -/

namespace Sample

/-- A key of zeros. -/
def key : AesKey := ⟨List.replicate 16 0, by decide⟩

/-- The column that has a key of its own. -/
def ownColumn : ColumnSettings := ⟨⟨["a"]⟩, .ownKey key (some [1])⟩

/-- The draft of a writer that encrypts the rest with the key of the footer. -/
def draft : WriteDraft :=
  { suite := .aesGcmCtrV1, footerKey := some key.bytes
    columns := Table.empty.insert ownColumn.path ownColumn }

/-- What the draft amounts to. -/
def writeSettings : WriteSettings :=
  { algorithm := ⟨.aesGcmCtrV1, none, List.replicate 8 0⟩, footer := .encrypted key none
    aadPrefix := none, columns := Table.empty.insert ownColumn.path ownColumn
    encryptTheRest := true }

/-- A reader that knows the key of the footer only. -/
def readSettings : ReadSettings :=
  ⟨some key, none, .empty, none, none, none, false⟩

/-- A page of one byte. -/
def page (text : UInt8) : PlainModule := ⟨.dataPage, 0, ⟨List.replicate 12 0, rfl⟩, [text]⟩

/-- A file with a row group of two columns. -/
def file : PlainFile :=
  ⟨[0], ⟨List.replicate 12 0, rfl⟩, [[⟨⟨["a"]⟩, 0, [page 1]⟩, ⟨⟨["b"]⟩, 1, [page 2]⟩]]⟩

/-- There is no retriever to answer. -/
def answer : Answering Unit := fun _ _ => return .error .clockOverflow

theorem lacksKey (path : ColumnPath) (metadata : Option Bytes) (world : Unit) :
    readSettings.LacksKey answer (readSettings.columnKey? path) metadata world :=
  .noRetriever rfl rfl

theorem finds : readSettings.Finds answer writeSettings where
  findsPrefix := .absent rfl (.inl rfl)
  footerKey key' metadata h _ := by
    cases h
    exact .given rfl
  columnKeys path _ metadata _ world := .inr (lacksKey path metadata world)

theorem page_admissible (path : ColumnPath) {ordinal : Nat} (h : ordinal ≤ maxOrdinal)
    (text : UInt8) : PlainChunk.Admissible ⟨path, ordinal, [page text]⟩ writeSettings where
  ordinal := h
  pages m hm := by
    cases List.mem_singleton.mp hm
    exact Nat.zero_le maxOrdinal
  texts _ m hm := by
    cases List.mem_singleton.mp hm
    show 12 + 1 + 0 ≤ maxFrameLength
    decide

theorem admissible : file.Admissible writeSettings where
  footer _ := by
    show 12 + 1 + 16 ≤ maxFrameLength
    decide
  rowGroups := by decide
  nodup_paths := by decide
  mem_paths := by decide
  chunks chunks hchunks chunk hchunk := by
    cases List.mem_singleton.mp hchunks
    rcases List.mem_pair.mp hchunk with rfl | rfl
    · exact page_admissible _ (by decide) 1
    · exact page_admissible _ (by decide) 2

end Sample

/-- The column with a key of its own is hidden; the footer and the other column are read. -/
theorem readFile_writeFile_hidden :
    Sample.draft.build ⟨fun _ => 0, 0⟩ = (.ok Sample.writeSettings, ⟨fun _ => 0, 8⟩) ∧
      Sample.readSettings.Finds Sample.answer Sample.writeSettings ∧
      Sample.file.Admissible Sample.writeSettings ∧
      ∃ stored w r,
        FileWriter.writeFile Sample.file (FileWriter.start Sample.writeSettings) =
          (.ok stored, w) ∧
        FileReader.readFile Sample.answer stored (FileReader.start Sample.readSettings, ()) =
          (.ok ⟨[0], [[none, some [[2]]]]⟩, (r, ())) := by
  have hbuild : Sample.draft.build ⟨fun _ => 0, 0⟩ =
      (.ok Sample.writeSettings, ⟨fun _ => 0, 8⟩) := rfl
  refine ⟨hbuild, Sample.finds, Sample.admissible, ?_⟩
  obtain ⟨stored, w, r, _, hwrite, hread, hhides⟩ :=
    readFile_writeFile hbuild Sample.finds Sample.admissible ()
  have hown : r.hides ⟨["a"]⟩ = true := by
    cases hshown : r.hides ⟨["a"]⟩ with
    | true => rfl
    | false =>
      obtain ⟨_, hfinds⟩ := (hhides ⟨["a"]⟩ (by decide)).2 hshown Sample.key (some [1]) rfl
      rcases hfinds with hgiven | ⟨-, hretriever, -, -⟩
      · cases hgiven
      · cases hretriever
  have hrest : r.hides ⟨["b"]⟩ = false := by
    cases hhidden : r.hides ⟨["b"]⟩ with
    | true =>
      obtain ⟨_, _, hprotection, -⟩ := (hhides ⟨["b"]⟩ (by decide)).1 hhidden
      cases hprotection
    | false => rfl
  refine ⟨stored, w, r, hwrite, hread.trans ?_⟩
  simp only [Sample.file, List.map_cons, List.map_nil, hown, hrest]
  rfl

end ModularEncryption
