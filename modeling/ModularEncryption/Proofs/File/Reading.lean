import ModularEncryption.Proofs.File.Writing
import ModularEncryption.Proofs.Read.File

/-! # Reading a whole file

A reader is told about the file, reads its footer, and then the row groups chunk by chunk; the facts
about the file are repeated before each row group, and the columns are closed after it (`readFile`).
Of a file that was stored under settings the reader's sources can deal with, it gives back the
footer and the texts of every chunk but those of hidden columns (`succeeds_readFile`). A chunk can
be read if its column is registered exactly if the columns are closed; this is so of the chunks of
the first row group, which name different columns, and of those of all others. -/

namespace ModularEncryption

variable {σ α β : Type}

/-- What is read from a file; the texts of a chunk are missing if its column is hidden. -/
structure LoadedFile where
  footer : Bytes
  rowGroups : List (List (Option (List Bytes)))

/-- A step of reading a file, with retrievers in a state of their own. -/
abbrev Reading (σ : Type) := ExceptT Failure (StateM (FileReader × σ))

namespace FileReader

/-! ### The reader's run -/

section Run
variable (answer : Answering σ)

/-- Lets a reader take a step in which it may ask a retriever. -/
def act (f : FileReader → Asking (Except Failure α × FileReader)) : Reading σ α :=
  fun (r, world) =>
    let ((result, r'), world') := (f r).runWith answer world
    (result, (r', world'))

/-- The additional data of the file. -/
def readFileAad : Reading σ Bytes := do
  let (r, _) ← get
  (r.fileAad.mapError .error : Except Failure Bytes)

/-- Reads the footer. -/
def readFooter (footer : Bytes) : Reading σ Bytes := do
  let cipher ← act answer fun r => .done (r.footer.1.mapError .error, r.footer.2)
  let fileAad ← readFileAad
  (loadFooter cipher fileAad footer).mapError Failure.error

/-- Reads a chunk. -/
def readChunk (rowGroup : Nat) (chunk : StoredChunk) : Reading σ (Option (List Bytes)) := do
  let column ← act answer fun r => r.registerColumn chunk.facts
  if column.hidden then return none
  let fileAad ← readFileAad
  let texts ← (loadModules column.ciphers? ⟨fileAad, rowGroup, chunk.facts.ordinal⟩
    chunk.modules).mapError Failure.error
  return some texts

/-- Reads the chunks of a row group. -/
def readChunks (rowGroup : Nat) : List StoredChunk → Reading σ (List (Option (List Bytes)))
  | [] => return []
  | chunk :: chunks => do
    let texts ← readChunk answer rowGroup chunk
    let others ← readChunks rowGroup chunks
    return texts :: others

/-- Tells the reader about the file. -/
def readFacts (file : StoredFile) : Reading σ Unit :=
  act answer fun r => r.setFile file.algorithm file.encryptedFooter file.footerKeyMetadata

/-- Reads a row group of a file. -/
def readRowGroup (file : StoredFile) (rowGroup : Nat) (chunks : List StoredChunk) :
    Reading σ (List (Option (List Bytes))) := do
  readFacts answer file
  let texts ← readChunks answer rowGroup chunks
  act answer fun r => .done (.ok (), r.closeColumns)
  return texts

/-- Reads the row groups of a file, which are numbered on. -/
def readRowGroups (file : StoredFile) :
    Nat → List (List StoredChunk) → Reading σ (List (List (Option (List Bytes))))
  | _, [] => return []
  | rowGroup, chunks :: rowGroups => do
    let texts ← readRowGroup answer file rowGroup chunks
    let others ← readRowGroups file (rowGroup + 1) rowGroups
    return texts :: others

/-- Reads a file. -/
def readFile (file : StoredFile) : Reading σ LoadedFile := do
  readFacts answer file
  let footer ← readFooter answer file.footer
  let rowGroups ← readRowGroups answer file 0 file.rowGroups
  return ⟨footer, rowGroups⟩

end Run

/-- Whether a column is registered as hidden. -/
def hides (r : FileReader) (path : ColumnPath) : Bool :=
  match r.columns.get? path with
  | some c => c.hidden
  | none => false

/-- What a reader shows of a chunk. -/
def shows (r : FileReader) (chunk : PlainChunk) : Option (List Bytes) :=
  if r.hides chunk.path then none else some chunk.texts

/-! ### Single chunks -/

variable {answer : Answering σ} {s : ReadSettings} {ws : WriteSettings} {r : FileReader}
  {world : σ}

/-- A step that may ask has the result that it has with the answers. -/
theorem act_bind {f : FileReader → Asking (Except Failure α × FileReader)}
    {g : α → Reading σ β} {a : α} {r' : FileReader} {world' : σ} {post : β → FileReader × σ → Prop}
    (hstep : (f r).runWith answer world = ((.ok a, r'), world'))
    (h : Succeeds (g a) (r', world') post) : Succeeds (act answer f >>= g) (r, world) post := by
  refine Succeeds.run_bind ?_ h
  show (match (f r).runWith answer world with
    | ((result, r'), world') => (result, (r', world'))) = _
  rw [hstep]

/-- A column was registered or met again; no other column is concerned. -/
structure Registers (r' r : FileReader) (path : ColumnPath) : Prop where
  extended : r'.Extends r
  columnsClosed_eq : r'.columnsClosed = r.columnsClosed
  registered : (r'.columns.get? path).isSome
  others : ∀ path', path' ≠ path → r'.columns.get? path' = r.columns.get? path'

/-- A column that is registered exactly if the columns are closed is granted. -/
theorem registerColumn_of_agrees (h : r.Agrees answer s ws) (hs : s.Finds answer ws)
    (hws : ws.Keyed) {f : ColumnFacts} (hf : f.Agrees ws)
    (hawait : (r.columns.get? f.path).isSome = r.columnsClosed) (world : σ) :
    ∃ c r' world', (r.registerColumn f).runWith answer world = ((.ok c, r'), world') ∧
      r'.columns.get? f.path = some c ∧ r'.Agrees answer s ws ∧ r'.Registers r f.path := by
  cases hget : r.columns.get? f.path with
  | some c =>
    rw [hget] at hawait
    have hsome : (r.columns.get? f.path).isSome := by rw [hget]; rfl
    exact ⟨c, r, world, registerColumn_again h hf hget hawait.symm world, hget, h, .refl r, rfl,
      hsome, fun _ _ => rfl⟩
  | none =>
    rw [hget] at hawait
    obtain ⟨c, r', world', hrun, -, hagrees, hcolumns, hclosed⟩ :=
      registerColumn_new h hs hws hf hget hawait.symm world
    have hc : r'.columns.get? f.path = some c := by rw [hcolumns, Table.get?_insert_self]
    refine ⟨c, r', world', hrun, hc, hagrees, ?_, hclosed.trans hawait, by rw [hc]; rfl, ?_⟩
    · intro path c' hget'
      have hne : path ≠ f.path := by
        rintro rfl
        rw [hget] at hget'
        cases hget'
      rw [hcolumns, Table.get?_insert_of_ne _ _ hne, hget']
    · intro path hne
      rw [hcolumns, Table.get?_insert_of_ne _ _ hne]

theorem readFileAad_bind (h : r.Agrees answer s ws) {g : Bytes → Reading σ β}
    {post : β → FileReader × σ → Prop} (hg : Succeeds (g ws.fileAad) (r, world) post) :
    Succeeds (readFileAad >>= g) (r, world) post := by
  refine Succeeds.run_bind ?_ hg
  show (r.fileAad.mapError Failure.error, (r, world)) = _
  rw [fileAad_eq h]
  rfl

theorem shows_eq {chunk : PlainChunk} {c : ReaderColumn}
    (hget : r.columns.get? chunk.path = some c) :
    r.shows chunk = if c.hidden then none else some chunk.texts := by
  unfold shows hides
  rw [hget]

/-- What is shown of a chunk of a registered column stays. -/
theorem Extends.shows_eq {r' : FileReader} {chunk : PlainChunk} (h : r'.Extends r)
    (hregistered : (r.columns.get? chunk.path).isSome) : r'.shows chunk = r.shows chunk := by
  obtain ⟨c, hc⟩ := Option.isSome_iff_exists.mp hregistered
  rw [FileReader.shows_eq hc, FileReader.shows_eq (h chunk.path c hc)]

theorem Extends.map_shows {r' : FileReader} {chunks : List PlainChunk} (h : r'.Extends r)
    (hregistered : ∀ chunk ∈ chunks, (r.columns.get? chunk.path).isSome) :
    chunks.map r'.shows = chunks.map r.shows :=
  List.map_congr_left fun chunk hchunk => h.shows_eq (hregistered chunk hchunk)

/-- **A chunk whose column is not hidden is read as it was written.** -/
theorem succeeds_readChunk (h : r.Agrees answer s ws) (hs : s.Finds answer ws) (hws : ws.Keyed)
    {rowGroup : Nat} {chunk : PlainChunk} {stored : StoredChunk}
    (hstored : ws.StoresChunk rowGroup chunk stored)
    (hawait : (r.columns.get? chunk.path).isSome = r.columnsClosed) :
    Succeeds (readChunk answer rowGroup stored) (r, world) fun out st =>
      out = st.1.shows chunk ∧ st.1.Agrees answer s ws ∧ st.1.Registers r chunk.path := by
  have hfacts : (ws.chunkFacts chunk).Agrees ws := ⟨rfl, rfl, rfl⟩
  obtain ⟨c, r', world', hrun, hget, hagrees, hregisters⟩ :=
    registerColumn_of_agrees h hs hws hfacts hawait world
  have hshows : r'.shows chunk = if c.hidden then none else some chunk.texts :=
    shows_eq hget
  unfold readChunk
  rw [hstored.facts_eq]
  refine act_bind hrun ?_
  cases hhidden : c.hidden with
  | true =>
    rw [hhidden] at hshows
    exact Succeeds.pure ⟨hshows.symm, hagrees, hregisters⟩
  | false =>
    rw [hhidden] at hshows
    refine readFileAad_bind hagrees ?_
    have hciphers := (hagrees.columns chunk.path c hget).ciphers?_eq hhidden
    have hload := loadModules_storeModules hstored.modules_eq
    rw [hciphers]
    refine Succeeds.lift_bind (a := chunk.texts) ?_
      (Succeeds.pure ⟨hshows.symm, hagrees, hregisters⟩)
    exact mapError_eq_ok_iff.mpr hload

/-! ### Row groups -/

/-- The chunks of a row group can be read: each names another column or the columns are closed, and
their columns are registered exactly if the columns are closed. -/
structure Awaits (r : FileReader) (chunks : List PlainChunk) : Prop where
  nodup : r.columnsClosed = false → (chunks.map (·.path)).Nodup
  registered : ∀ chunk ∈ chunks, (r.columns.get? chunk.path).isSome = r.columnsClosed

/-- When a chunk was read, the others can still be read. -/
theorem Awaits.tail {r' : FileReader} {chunk : PlainChunk} {chunks : List PlainChunk}
    (h : r.Awaits (chunk :: chunks)) (hr' : r'.Registers r chunk.path) : r'.Awaits chunks where
  nodup hclosed := by
    have hnodup := h.nodup (hr'.columnsClosed_eq.symm.trans hclosed)
    exact (List.nodup_cons.mp hnodup).2
  registered chunk' hchunk' := by
    have hawait := h.registered chunk' (List.mem_cons_of_mem chunk hchunk')
    rw [hr'.columnsClosed_eq]
    by_cases hpath : chunk'.path = chunk.path
    · cases hclosed : r.columnsClosed with
      | true => rw [hpath, hr'.registered]
      | false =>
        -- while the columns are open no two chunks name the same column
        have hnodup := h.nodup hclosed
        have hmem : chunk.path ∈ chunks.map (·.path) := List.mem_map.mpr ⟨chunk', hchunk', hpath⟩
        exact absurd hmem (List.nodup_cons.mp hnodup).1
    · rw [hr'.others chunk'.path hpath, hawait]

/-- Columns were registered or met again. -/
structure Reads (r' r : FileReader) (chunks : List PlainChunk) : Prop where
  extended : r'.Extends r
  columnsClosed_eq : r'.columnsClosed = r.columnsClosed
  registered : ∀ chunk ∈ chunks, (r'.columns.get? chunk.path).isSome

theorem Registers.cons {r' r'' : FileReader} {chunk : PlainChunk} {chunks : List PlainChunk}
    (h : r'.Registers r chunk.path) (h' : r''.Reads r' chunks) : r''.Reads r (chunk :: chunks) where
  extended := h'.extended.trans h.extended
  columnsClosed_eq := h'.columnsClosed_eq.trans h.columnsClosed_eq
  registered :=
    List.forall_mem_cons.mpr ⟨h'.extended.isSome_get? h.registered, h'.registered⟩

theorem succeeds_readChunks (hs : s.Finds answer ws) (hws : ws.Keyed) {rowGroup : Nat}
    {chunks : List PlainChunk} {stored : List StoredChunk}
    (hstored : List.Forall₂ (ws.StoresChunk rowGroup) chunks stored) :
    ∀ {r : FileReader} {world : σ}, r.Agrees answer s ws → r.Awaits chunks →
      Succeeds (readChunks answer rowGroup stored) (r, world) fun out st =>
        out = chunks.map st.1.shows ∧ st.1.Agrees answer s ws ∧ st.1.Reads r chunks := by
  induction hstored with
  | nil =>
    intro r world h _
    exact Succeeds.pure ⟨rfl, h, .refl r, rfl, fun _ hmem => absurd hmem List.not_mem_nil⟩
  | @cons chunk stored chunks others hfirst _ ih =>
    intro r world h hawaits
    refine (succeeds_readChunk h hs hws hfirst
      (hawaits.registered chunk List.mem_cons_self)).bind ?_
    rintro _ ⟨r', world'⟩ ⟨rfl, hagrees, hregisters⟩
    refine (ih hagrees (hawaits.tail hregisters)).bind ?_
    rintro _ ⟨r'', world''⟩ ⟨rfl, hagrees', hreads⟩
    refine Succeeds.pure ⟨?_, hagrees', hregisters.cons hreads⟩
    rw [List.map_cons, hreads.extended.shows_eq hregisters.registered]

theorem Agrees.closeColumns (h : r.Agrees answer s ws) : r.closeColumns.Agrees answer s ws :=
  ⟨h.settings_eq, h.file, h.footerCipher, h.footerColumnCiphers, h.columns⟩

/-- **A row group is read**, and the columns are closed after it. -/
theorem succeeds_readRowGroup (h : r.Agrees answer s ws) (hs : s.Finds answer ws) (hws : ws.Keyed)
    {file : StoredFile} (hfile : file.algorithm = ws.algorithm) {rowGroup : Nat}
    {chunks : List PlainChunk} {stored : List StoredChunk}
    (hstored : List.Forall₂ (ws.StoresChunk rowGroup) chunks stored) (hawaits : r.Awaits chunks) :
    Succeeds (readRowGroup answer file rowGroup stored) (r, world) fun out st =>
      out = chunks.map st.1.shows ∧ st.1.Agrees answer s ws ∧ st.1.Extends r ∧
        st.1.columnsClosed = true ∧ ∀ chunk ∈ chunks, (st.1.columns.get? chunk.path).isSome := by
  unfold readRowGroup readFacts
  rw [hfile]
  refine act_bind (setFile_again h file.encryptedFooter file.footerKeyMetadata world) ?_
  refine (succeeds_readChunks hs hws hstored h hawaits).bind ?_
  rintro _ ⟨r', world'⟩ ⟨rfl, hagrees, hreads⟩
  refine act_bind (Asking.runWith_done answer _ world') ?_
  exact Succeeds.pure ⟨rfl, hagrees.closeColumns, hreads.extended, rfl, hreads.registered⟩

/-- Once the columns are closed, all row groups are read whose columns are registered. -/
theorem succeeds_readRowGroups (hs : s.Finds answer ws) (hws : ws.Keyed) {file : StoredFile}
    (hfile : file.algorithm = ws.algorithm) {rowGroup : Nat} {rowGroups : List (List PlainChunk)}
    {stored : List (List StoredChunk)} (hstored : ws.StoresRowGroups rowGroup rowGroups stored) :
    ∀ {r : FileReader} {world : σ}, r.Agrees answer s ws → r.columnsClosed = true →
      (∀ chunks ∈ rowGroups, ∀ chunk ∈ chunks, (r.columns.get? chunk.path).isSome) →
        Succeeds (readRowGroups answer file rowGroup stored) (r, world) fun out st =>
          out = rowGroups.map (·.map st.1.shows) ∧ st.1.Agrees answer s ws ∧ st.1.Extends r := by
  induction hstored with
  | nil => exact fun {r} _ h _ _ => Succeeds.pure ⟨rfl, h, .refl r⟩
  | @cons rowGroup chunks stored rowGroups others first _ ih =>
    intro r world h hclosed hregistered
    obtain ⟨hfirst, hrest⟩ := List.forall_mem_cons.mp hregistered
    have hawaits : r.Awaits chunks :=
      ⟨fun hopen => absurd (hclosed.symm.trans hopen) (by decide),
        fun chunk hchunk => (hfirst chunk hchunk).trans hclosed.symm⟩
    refine (succeeds_readRowGroup h hs hws hfile first hawaits).bind ?_
    rintro _ ⟨r', world'⟩ ⟨rfl, hagrees, hextends, hclosed', hshown⟩
    refine (ih hagrees hclosed' fun chunks hchunks chunk hchunk =>
      hextends.isSome_get? (hrest chunks hchunks chunk hchunk)).bind ?_
    rintro _ ⟨r'', world''⟩ ⟨rfl, hagrees', hextends'⟩
    refine Succeeds.pure ⟨?_, hagrees', hextends'.trans hextends⟩
    rw [List.map_cons, hextends'.map_shows hshown]

/-! ### The file -/

theorem succeeds_readFooter (h : r.Agrees answer s ws) {nonce : Nonce} {footer stored : Bytes}
    (hstored : storeFooter (ws.footerKey?.map (⟨.gcm, ·⟩)) ws.fileAad nonce footer = .ok stored) :
    Succeeds (readFooter answer stored) (r, world) fun out st =>
      out = footer ∧ st.1.Agrees answer s ws ∧ st.1.SameColumns r := by
  obtain ⟨r', hr', hagrees, hsame⟩ := footer_eq h
  have hrun : (Asking.done (r.footer.1.mapError Failure.error, r.footer.2)).runWith answer world =
      ((.ok (ws.footerKey?.map (⟨.gcm, ·⟩)), r'), world) := by
    rw [hr']
    rfl
  unfold readFooter
  refine act_bind hrun (readFileAad_bind hagrees ?_)
  rw [loadFooter_storeFooter hstored]
  exact ⟨footer, _, rfl, rfl, hagrees, hsame⟩

/-- The first row group that is read names the columns of the file. -/
theorem succeeds_readRowGroups_first (h : r.Agrees answer s ws) (hs : s.Finds answer ws)
    (hws : ws.Keyed) {stored : StoredFile} {file : PlainFile} (hstored : ws.Stores file stored)
    (hnodup : file.paths.Nodup)
    (hmem : ∀ chunks ∈ file.rowGroups, ∀ chunk ∈ chunks, chunk.path ∈ file.paths)
    (hcolumns : r.columns = .empty) (hclosed : r.columnsClosed = false) :
    Succeeds (readRowGroups answer stored 0 stored.rowGroups) (r, world) fun out st =>
      out = file.rowGroups.map (·.map st.1.shows) ∧ st.1.Agrees answer s ws ∧
        ∀ path ∈ file.paths, (st.1.columns.get? path).isSome := by
  have hrowGroups := hstored.rowGroups
  unfold PlainFile.paths at hnodup hmem ⊢
  generalize file.rowGroups = plain at hrowGroups hnodup hmem ⊢
  generalize stored.rowGroups = groups at hrowGroups ⊢
  cases hrowGroups with
  | nil => exact Succeeds.pure ⟨rfl, h, fun _ hpath => absurd hpath List.not_mem_nil⟩
  | @cons _ chunks group rowGroups others first rest =>
    have hawaits : r.Awaits chunks := by
      refine ⟨fun _ => hnodup, fun chunk _ => ?_⟩
      rw [hcolumns, hclosed]
      rfl
    refine (succeeds_readRowGroup h hs hws hstored.algorithm_eq first hawaits).bind ?_
    rintro _ ⟨r', world'⟩ ⟨rfl, hagrees, -, hclosed', hshown⟩
    have hpaths : ∀ path ∈ chunks.map (·.path), (r'.columns.get? path).isSome := by
      rintro _ hpath
      obtain ⟨chunk, hchunk, rfl⟩ := List.mem_map.mp hpath
      exact hshown chunk hchunk
    refine (succeeds_readRowGroups hs hws hstored.algorithm_eq rest hagrees hclosed'
      fun chunks' hchunks' chunk hchunk =>
        hpaths _ (hmem chunks' (List.mem_cons_of_mem _ hchunks') chunk hchunk)).bind ?_
    rintro _ ⟨r'', world''⟩ ⟨rfl, hagrees', hextends⟩
    refine Succeeds.pure ⟨?_, hagrees', fun path hpath => ?_⟩
    · rw [List.map_cons, hextends.map_shows hshown]
    · exact hextends.isSome_get? (hpaths path hpath)

/-- **A file is read as it was written**, but for the chunks of hidden columns. -/
theorem succeeds_readFile (hs : s.Finds answer ws) (hws : ws.Keyed) {stored : StoredFile}
    {file : PlainFile} (hstored : ws.Stores file stored) (hnodup : file.paths.Nodup)
    (hmem : ∀ chunks ∈ file.rowGroups, ∀ chunk ∈ chunks, chunk.path ∈ file.paths) (world : σ) :
    Succeeds (readFile answer stored) (start s, world) fun out st =>
      out = ⟨file.footer, file.rowGroups.map (·.map st.1.shows)⟩ ∧ st.1.Agrees answer s ws ∧
        ∀ path ∈ file.paths, (st.1.columns.get? path).isSome := by
  obtain ⟨r', world', hrun, hagrees, hsame⟩ := setFile_start hs world
  unfold readFile readFacts
  rw [hstored.algorithm_eq, hstored.encryptedFooter_eq, hstored.footerKeyMetadata_eq]
  refine act_bind hrun ((succeeds_readFooter hagrees hstored.footer_eq).bind ?_)
  rintro _ ⟨r'', world''⟩ ⟨rfl, hagrees', hsame'⟩
  have hcolumns := hsame'.trans hsame
  refine (succeeds_readRowGroups_first hagrees' hs hws hstored hnodup hmem hcolumns.columns_eq
    hcolumns.columnsClosed_eq).bind ?_
  rintro _ ⟨r₃, world₃⟩ ⟨rfl, hagrees₃, hregistered⟩
  exact Succeeds.pure ⟨rfl, hagrees₃, hregistered⟩

end FileReader

end ModularEncryption
