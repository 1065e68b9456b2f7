import ModularEncryption.Proofs.Read.WriteOnce

/-! # Columns do not influence each other

If retrievers answer by a function, what a reader says about a column depends on two requests only:
the one that recorded the file (`FileReader.Records`) and the first one that registered the column
(`FileReader.RegistersFirst`). The first comes to the facts about the file (`file_of_records`), and
the second to the column (`get?_of_registersFirst`), both as functions of the sources and of what
the request says (`factsFrom`, `columnFrom`). So the ciphers that were kept on the way, and all
other columns, have no part in it.

From there it is a short way to the other two results: columns may be registered in any order
(`column_perm`), and sources that know the same of two keys come to the same column, whatever they
know of other keys (`columnFrom_eq`). `column_alone` is all this together. -/

namespace ModularEncryption

namespace FileReader

section Readers

variable {answer answer' : RetrieverRef → Bytes → KeyAnswer} {s s' : ReadSettings}
  {r r' : FileReader} {facts facts' : FileFacts} {request : ReaderRequest} {path : ColumnPath}
  {heading : FileHeading} {c : ColumnFacts} {column : ReaderColumn}

/-! ### What a file and a column come to -/

/-- The facts that the heading of a file comes to. -/
def factsFrom (answer : RetrieverRef → Bytes → KeyAnswer) (s : ReadSettings) (h : FileHeading) :
    Option FileFacts :=
  match (resolveFooterKey s h.encryptedFooter h.footerKeyMetadata).run answer,
    resolvePrefix s h.algorithm with
  | .ok footerKey, .ok aadPrefix => some
    { algorithm := h.algorithm
      encryptedFooter := h.encryptedFooter
      footerKey
      fileAad := aadPrefix ++ h.algorithm.aadFileUnique }
  | _, _ => none

/-- The column that a registration comes to, in a file with some facts. -/
def columnFrom (answer : RetrieverRef → Bytes → KeyAnswer) (s : ReadSettings) (facts : FileFacts)
    (c : ColumnFacts) : Option ReaderColumn :=
  ((grantFor s facts c).run answer).toOption.map (⟨c.path, c.ordinal, ·⟩)

theorem file_serve_setFile (hnone : r.file = none) :
    (serve answer r [.setFile heading]).file = factsFrom answer r.settings heading := by
  simp only [serve_cons, serve_nil, perform, reply, setFile, hnone, factsFrom, Asking.run_map]
  cases (resolveFooterKey r.settings heading.encryptedFooter
    heading.footerKeyMetadata).run answer with
  | error f => exact hnone
  | ok footerKey =>
    cases resolvePrefix r.settings heading.algorithm with
    | error e => exact hnone
    | ok aadPrefix => rfl

theorem facts_of_factsFrom (h : factsFrom answer s heading = some facts) :
    facts.algorithm = heading.algorithm ∧
      (resolveFooterKey s heading.encryptedFooter heading.footerKeyMetadata).run answer =
        .ok facts.footerKey := by
  unfold factsFrom at h
  split at h
  · next hfooter _ => cases h; exact ⟨rfl, hfooter⟩
  · cases h

/-! ### Readers that take columns -/

/-- A reader with some settings has recorded a file with some facts, and its columns are open. -/
structure Ready (r : FileReader) (s : ReadSettings) (facts : FileFacts) : Prop where
  sound : r.Sound
  settings_eq : r.settings = s
  file_eq : r.file = some facts
  isOpen : r.columnsClosed = false

theorem advances_run (answer : RetrieverRef → Bytes → KeyAnswer) (h : r.Sound)
    (request : ReaderRequest) : r.Advances request (serve answer r [request]) :=
  advances_of_perform h.kept (Asking.mayYield_run answer (r.perform request))

theorem Advances.columnsClosed_eq (h : r.Advances request r') (hne : request ≠ .closeColumns) :
    r'.columnsClosed = r.columnsClosed := by
  cases h with
  | refills _ hr' => exact hr'.columnsClosed_eq
  | registers hr₁ _ _ => exact hr₁.columnsClosed_eq
  | closes => exact absurd rfl hne
  | _ => rfl

theorem Ready.serve_registerColumn (h : r.Ready s facts) (c : ColumnFacts) :
    (serve answer r [.registerColumn c]).Ready s facts := by
  have hadvances := advances_run answer h.sound (.registerColumn c)
  exact ⟨h.sound.advances hadvances, hadvances.settings_eq.trans h.settings_eq,
    hadvances.remembers.file facts h.file_eq,
    (hadvances.columnsClosed_eq nofun).trans h.isOpen⟩

/-- A reader that admits no column is left alone by registrations. -/
theorem serve_registerColumn_of_not_admits (h : ∀ facts, ¬ r.Admits facts c.path) :
    serve answer r [.registerColumn c] = r := by
  obtain ⟨result, heq, -⟩ := registerColumn_of_not_admits h
  simp only [serve_cons, serve_nil, perform, heq, Asking.map, Asking.run_done, reply]

/-- **A registration adds what the column comes to**, if the path is new, and nothing else. -/
theorem Ready.get?_serve_registerColumn (h : r.Ready s facts)
    (answer : RetrieverRef → Bytes → KeyAnswer) (c : ColumnFacts) (path : ColumnPath) :
    (serve answer r [.registerColumn c]).columns.get? path =
      (r.columns.get? path).or (if path = c.path then columnFrom answer s facts c else none) := by
  cases hget : r.columns.get? c.path with
  | some column =>
    have hnot : ∀ facts, ¬ r.Admits facts c.path := by
      intro facts ha
      rw [ha.new] at hget
      cases hget
    rw [serve_registerColumn_of_not_admits hnot]
    split
    · next hpath => rw [hpath, hget, Option.some_or]
    · rw [Option.or_none]
  | none =>
    obtain ⟨r₁, hrefills, heq⟩ := registerColumn_of_admits h.sound.kept ⟨h.file_eq, hget, h.isOpen⟩
    simp only [serve_cons, serve_nil, perform, heq, Asking.run_map, reply, h.settings_eq,
      columnFrom]
    cases (grantFor s facts c).run answer with
    | error f =>
      simp only [addGranted, hrefills.columns_eq, Except.toOption, Option.map_none, ite_self,
        Option.or_none]
    | ok access =>
      simp only [addGranted, addColumn, hrefills.columns_eq, Table.get?_insert, Except.toOption,
        Option.map_some]
      split
      · next hpath => rw [hpath, hget, Option.none_or]
      · rw [Option.or_none]

/-! ### The requests that decide -/

/-- In a run from a reader, some request is the one after which the reader has a property that it
did not have before. -/
def Turns (answer : RetrieverRef → Bytes → KeyAnswer) (r : FileReader)
    (requests : List ReaderRequest) (property : FileReader → Prop) (request : ReaderRequest) :
    Prop :=
  ∃ before after, requests = before ++ request :: after ∧ ¬ property (serve answer r before) ∧
    property (serve answer r (before ++ [request]))

/-- In a run, the request with a heading is the one that records the file. -/
abbrev Records (answer : RetrieverRef → Bytes → KeyAnswer) (s : ReadSettings)
    (requests : List ReaderRequest) (heading : FileHeading) : Prop :=
  Turns answer (start s) requests (·.file.isSome = true) (.setFile heading)

/-- In a run, the registration of a column is the first one that its path succeeds with. -/
abbrev RegistersFirst (answer : RetrieverRef → Bytes → KeyAnswer) (s : ReadSettings)
    (requests : List ReaderRequest) (c : ColumnFacts) : Prop :=
  Turns answer (start s) requests (fun r => (r.columns.get? c.path).isSome = true)
    (.registerColumn c)

/-- A property that holds at the end and not at the beginning comes with some request. -/
theorem exists_turns {property : FileReader → Prop} {requests : List ReaderRequest}
    (h : ¬ property r) (hend : property (serve answer r requests)) :
    ∃ request, Turns answer r requests property request := by
  induction requests generalizing r with
  | nil => exact absurd hend h
  | cons request requests ih =>
    -- the first request brings the property, or the run goes on without it
    by_cases hfirst : property (serve answer r [request])
    · exact ⟨request, [], requests, rfl, h, hfirst⟩
    · obtain ⟨turning, before, after, rfl, hbefore, hafter⟩ := ih hfirst hend
      exact ⟨turning, request :: before, after, rfl, hbefore, hafter⟩

section Runs

variable {requests : List ReaderRequest}

theorem sound_serve (answer : RetrieverRef → Bytes → KeyAnswer) (s : ReadSettings)
    (requests : List ReaderRequest) : (serve answer (start s) requests).Sound :=
  (sound_start s).leads (leads_serve answer (start s) requests)

theorem remembers_serve (h : r.Sound) (requests : List ReaderRequest) :
    (serve answer r requests).Remembers r := leads_remembers h (leads_serve answer r requests)

theorem settings_serve (h : r.Sound) (requests : List ReaderRequest) :
    (serve answer r requests).settings = r.settings := by
  induction requests generalizing r with
  | nil => rfl
  | cons request requests ih =>
    have hadvances := advances_run answer h request
    exact (ih (h.advances hadvances)).trans hadvances.settings_eq

/-- A run goes on from the request that turned it. -/
theorem Turns.elim {property : FileReader → Prop}
    (h : Turns answer (start s) requests property request) :
    ∃ r : FileReader, r.Sound ∧ r.settings = s ∧ ¬ property r ∧
      property (serve answer r [request]) ∧
      (serve answer (start s) requests).Remembers (serve answer r [request]) := by
  obtain ⟨before, after, rfl, hbefore, hafter⟩ := h
  have hsound := sound_serve answer s before
  have hadvances := advances_run answer hsound request
  rw [serve_append] at hafter
  refine ⟨serve answer (start s) before, hsound, settings_serve (sound_start s) before, hbefore,
    hafter, ?_⟩
  rw [serve_append, serve_cons]
  exact remembers_serve (hsound.advances hadvances) after

/-- **The heading that records the file decides its facts.** -/
theorem file_of_records (h : Records answer s requests heading) :
    ∃ facts, factsFrom answer s heading = some facts ∧
      (serve answer (start s) requests).file = some facts := by
  obtain ⟨r, -, hsettings, hnone, hsome, hremembers⟩ := h.elim
  obtain ⟨facts, hfacts⟩ := Option.isSome_iff_exists.mp hsome
  have hfrom : (serve answer r [.setFile heading]).file = factsFrom answer r.settings heading :=
    file_serve_setFile (Option.not_isSome_iff_eq_none.mp hnone)
  rw [hsettings] at hfrom
  exact ⟨facts, hfrom.symm.trans hfacts, hremembers.file facts hfacts⟩

/-- **The facts about the file and the first registration decide a column.** -/
theorem get?_of_registersFirst (h : RegistersFirst answer s requests c) :
    ∃ facts column, (serve answer (start s) requests).file = some facts ∧
      columnFrom answer s facts c = some column ∧
      (serve answer (start s) requests).columns.get? c.path = some column := by
  obtain ⟨r, hsound, hsettings, hnone, hsome, hremembers⟩ := h.elim
  obtain ⟨column, hcolumn⟩ := Option.isSome_iff_exists.mp hsome
  rcases Classical.em (∃ facts, r.Admits facts c.path) with ⟨facts, ha⟩ | hnot
  · have hready : r.Ready s facts := ⟨hsound, hsettings, ha.file_eq, ha.isOpen⟩
    have hget := hready.get?_serve_registerColumn answer c c.path
    rw [ha.new, Option.none_or, if_pos rfl] at hget
    exact ⟨facts, column,
      hremembers.file facts (hready.serve_registerColumn c).file_eq, hget.symm.trans hcolumn,
      hremembers.columns c.path column hcolumn⟩
  · -- a reader that admits no column is left alone, so this request did not register one
    rw [serve_registerColumn_of_not_admits (not_exists.mp hnot)] at hsome
    exact absurd hsome hnone

theorem Advances.eq_setFile (h : r.Advances request r') (hnone : r.file = none)
    (hsome : r'.file.isSome = true) : ∃ heading, request = .setFile heading := by
  cases h with
  | records heading _ _ => exact ⟨heading, rfl⟩
  | refills _ hr' => rw [hr'.file_eq, hnone] at hsome; cases hsome
  | registers hr₁ _ _ => rw [hr₁.file_eq, hnone] at hsome; cases hsome
  | closes => rw [closeColumns, hnone] at hsome; cases hsome
  | findsSigningKey => rw [hnone] at hsome; cases hsome

theorem Advances.eq_registerColumn (h : r.Advances request r')
    (hnone : r.columns.get? path = none) (hsome : (r'.columns.get? path).isSome = true) :
    ∃ c, request = .registerColumn c ∧ c.path = path := by
  cases h with
  | @registers r₁ _ c hr₁ _ _ =>
    refine ⟨c, rfl, ?_⟩
    rw [hr₁.columns_eq, Table.get?_insert, hnone] at hsome
    split at hsome
    · next hpath => exact hpath.symm
    · cases hsome
  | refills _ hr' => rw [hr'.columns_eq, hnone] at hsome; cases hsome
  | records => rw [hnone] at hsome; cases hsome
  | closes => rw [closeColumns, hnone] at hsome; cases hsome
  | findsSigningKey => rw [hnone] at hsome; cases hsome

theorem exists_records (h : (serve answer (start s) requests).file.isSome = true) :
    ∃ heading, Records answer s requests heading := by
  obtain ⟨request, hturns⟩ : ∃ request,
      Turns answer (start s) requests (·.file.isSome = true) request := exists_turns nofun h
  obtain ⟨r, hsound, -, hnone, hsome, -⟩ := hturns.elim
  obtain ⟨heading, rfl⟩ := (advances_run answer hsound request).eq_setFile
    (Option.not_isSome_iff_eq_none.mp hnone) hsome
  exact ⟨heading, hturns⟩

theorem exists_registersFirst
    (h : ((serve answer (start s) requests).columns.get? path).isSome = true) :
    ∃ c, c.path = path ∧ RegistersFirst answer s requests c := by
  obtain ⟨request, hturns⟩ : ∃ request, Turns answer (start s) requests
      (fun r => (r.columns.get? path).isSome = true) request := exists_turns nofun h
  obtain ⟨r, hsound, -, hnone, hsome, -⟩ := hturns.elim
  obtain ⟨c, rfl, rfl⟩ := (advances_run answer hsound request).eq_registerColumn
    (Option.not_isSome_iff_eq_none.mp hnone) hsome
  exact ⟨c, rfl, hturns⟩

end Runs

/-! ### Readers that are told of one column only -/

theorem ready_serve_setFile (hfacts : factsFrom answer s heading = some facts) :
    (serve answer (start s) [.setFile heading]).Ready s facts where
  sound := sound_serve answer s [.setFile heading]
  settings_eq := settings_serve (sound_start s) [.setFile heading]
  file_eq := (file_serve_setFile rfl).trans hfacts
  isOpen := (advances_run answer (sound_start s) (.setFile heading)).columnsClosed_eq nofun

theorem get?_serve_setFile (path : ColumnPath) :
    (serve answer (start s) [.setFile heading]).columns.get? path = none := by
  have hadvances := advances_run answer (sound_start s) (.setFile heading)
  refine Option.not_isSome_iff_eq_none.mp fun hsome => ?_
  obtain ⟨c, heq, -⟩ := hadvances.eq_registerColumn rfl hsome
  cases heq

/-- **A reader that is told of one column only** has what the column comes to. -/
theorem column_serve_pair (hfacts : factsFrom answer s heading = some facts)
    (hcolumn : columnFrom answer s facts c = some column) :
    (serve answer (start s) [.setFile heading, .registerColumn c]).column c.path = .ok column := by
  have hget := (ready_serve_setFile hfacts).get?_serve_registerColumn answer c c.path
  rw [get?_serve_setFile, Option.none_or, if_pos rfl, hcolumn] at hget
  exact column_of_get? (sound_serve answer s [.setFile heading, .registerColumn c]) hget

/-! ### Columns in any order -/

section Order

variable {cs cs' : List ColumnFacts}

theorem column_congr (hfile : r'.file = r.file)
    (hget : r'.columns.get? path = r.columns.get? path) : r'.column path = r.column path := by
  unfold FileReader.column
  rw [facts_congr hfile, hget]

/-- **Distinct columns are registered one by one**: each one whose path is new comes to what it
would come to alone. -/
theorem Ready.get?_serve_registerColumns (h : r.Ready s facts)
    (hdistinct : (cs.map (·.path)).Nodup) :
    (serve answer r (cs.map .registerColumn)).columns.get? path = some column ↔
      r.columns.get? path = some column ∨ r.columns.get? path = none ∧
        ∃ c ∈ cs, path = c.path ∧ columnFrom answer s facts c = some column := by
  induction cs generalizing r with
  | nil => simp
  | cons c cs ih =>
    rw [List.map_cons, List.nodup_cons] at hdistinct
    obtain ⟨hnew, hdistinct⟩ := hdistinct
    rw [List.map_cons, serve_cons]
    refine (ih (h.serve_registerColumn c) hdistinct).trans ?_
    rw [h.get?_serve_registerColumn answer c path]
    cases hget : r.columns.get? path with
    | some column' => simp
    | none =>
      by_cases hpath : path = c.path
      · -- no column after this one has its path
        have hlater : ∀ c' ∈ cs, path ≠ c'.path := by
          rintro c' hc' rfl
          exact hnew (List.mem_map.mpr ⟨c', hc', hpath⟩)
        rw [Option.none_or, if_pos hpath]
        constructor
        · rintro (hcolumn | ⟨-, c', hc', hpath', -⟩)
          · exact .inr ⟨rfl, c, List.mem_cons_self, hpath, hcolumn⟩
          · exact absurd hpath' (hlater c' hc')
        · rintro (hnone | ⟨-, c', hc', hpath', hcolumn⟩)
          · cases hnone
          · rcases List.mem_cons.mp hc' with rfl | hc'
            · exact .inl hcolumn
            · exact absurd hpath' (hlater c' hc')
      · simp [hpath]

theorem serve_registerColumns_of_not_admits (h : ∀ facts path, ¬ r.Admits facts path) :
    serve answer r (cs.map .registerColumn) = r := by
  induction cs with
  | nil => rfl
  | cons c cs ih =>
    have hfirst : serve answer r [.registerColumn c] = r :=
      serve_registerColumn_of_not_admits fun facts => h facts c.path
    rw [serve_cons, serve_nil] at hfirst
    rw [List.map_cons, serve_cons, hfirst, ih]

/-- **Distinct columns may be registered in any order.** -/
theorem column_perm (h : r.Sound) (hperm : cs.Perm cs') (hdistinct : (cs.map (·.path)).Nodup)
    (path : ColumnPath) :
    (serve answer r (cs.map .registerColumn)).column path =
      (serve answer r (cs'.map .registerColumn)).column path := by
  rcases Classical.em (∃ facts, r.file = some facts ∧ r.columnsClosed = false) with
    ⟨facts, hfile, hopen⟩ | hnot
  · have hready : r.Ready r.settings facts := ⟨h, rfl, hfile, hopen⟩
    have hdistinct' : (cs'.map (·.path)).Nodup := (hperm.map _).nodup_iff.mp hdistinct
    refine column_congr ?_ (Option.ext fun column => ?_)
    · rw [(remembers_serve h _).file facts hfile, (remembers_serve h _).file facts hfile]
    · rw [hready.get?_serve_registerColumns hdistinct,
        hready.get?_serve_registerColumns hdistinct']
      simp only [hperm.mem_iff]
  · have hadmits : ∀ facts path, ¬ r.Admits facts path := fun facts path ha =>
      hnot ⟨facts, ha.file_eq, ha.isOpen⟩
    rw [serve_registerColumns_of_not_admits hadmits, serve_registerColumns_of_not_admits hadmits]

end Order

/-! ### Sources that know the same -/

/-- What an answer says of a column's own key: the key, or that nobody knows it; or nothing, if the
source fails in another way. -/
def knownKey : Except Failure (Option AesKey) → Option (Option AesKey)
  | .ok key => some key
  | .error (.error e) => if e.kind.meansUnknownKey then some none else none
  | .error .clockOverflow => none

/-- Two readers have sources that know the same of the keys of a file and of one column. Of other
columns they may know anything, and the writer's prefix may be another one, too. -/
structure SameKeys (answer : RetrieverRef → Bytes → KeyAnswer) (s : ReadSettings)
    (answer' : RetrieverRef → Bytes → KeyAnswer) (s' : ReadSettings) (heading : FileHeading)
    (c : ColumnFacts) : Prop where
  footer : ((resolveFooterKey s heading.encryptedFooter
    heading.footerKeyMetadata).run answer).toOption =
      ((resolveFooterKey s' heading.encryptedFooter
        heading.footerKeyMetadata).run answer').toOption
  own : c.encrypted = true → c.withFooterKey = false →
    knownKey ((resolveColumnKey s c).run answer) = knownKey ((resolveColumnKey s' c).run answer')

/-- What is known of a column's own key decides how the column can be read. -/
theorem toOption_accessOfKey (suite : CipherSuite) (path : ColumnPath)
    (resolved : Except Failure (Option AesKey)) :
    (accessOfKey suite path resolved).toOption = (knownKey resolved).map fun key =>
      match key with
      | some key => .ownKey (.ofKey suite key)
      | none => .hidden := by
  rcases resolved with (e | _) | key
  · simp only [accessOfKey, knownKey]
    split <;> rfl
  · rfl
  · cases key <;> rfl

/-- **Sources that know the same of two keys come to the same column.** -/
theorem columnFrom_eq (hkeys : SameKeys answer s answer' s' heading c)
    (hfacts : factsFrom answer s heading = some facts)
    (hfacts' : factsFrom answer' s' heading = some facts') :
    columnFrom answer s facts c = columnFrom answer' s' facts' c := by
  obtain ⟨halgorithm, hfooter⟩ := facts_of_factsFrom hfacts
  obtain ⟨halgorithm', hfooter'⟩ := facts_of_factsFrom hfacts'
  have hsuite : facts.algorithm = facts'.algorithm := halgorithm.trans halgorithm'.symm
  have hfooterKey : facts.footerKey = facts'.footerKey := by
    have hsame := hkeys.footer
    rw [hfooter, hfooter'] at hsame
    exact Option.some.inj hsame
  unfold columnFrom grantFor
  cases hencrypted : c.encrypted with
  | false => rfl
  | true =>
    cases hwith : c.withFooterKey with
    | true =>
      simp only [Bool.not_true, Bool.false_eq_true, if_false, if_true, hsuite, hfooterKey]
      cases facts'.footerKey <;> rfl
    | false =>
      -- only here are the sources asked for more than the footer's key
      simp only [Bool.not_true, Bool.false_eq_true, if_false, Asking.run_map,
        toOption_accessOfKey, hkeys.own hencrypted hwith, hsuite]

/-- **A column is what it would be alone.** In every run of a reader whose retrievers answer by a
function, each registered column comes from the request that recorded the file and from the first
registration of its path. It is the column of a reader that is asked these two things only, and of
every other reader with the same two requests whose sources know the same of the keys of the file
and of the column. Distinct columns may be registered in any order. -/
theorem column_alone (answer : RetrieverRef → Bytes → KeyAnswer) (s : ReadSettings)
    (requests : List ReaderRequest) :
    (∀ path, ((serve answer (start s) requests).columns.get? path).isSome = true →
      ∃ heading c, c.path = path ∧ Records answer s requests heading ∧
        RegistersFirst answer s requests c) ∧
    (∀ heading c, Records answer s requests heading → RegistersFirst answer s requests c →
      ∃ column, (serve answer (start s) requests).column c.path = .ok column ∧
        (serve answer (start s) [.setFile heading, .registerColumn c]).column c.path =
          .ok column ∧
        ∀ answer' s' requests', SameKeys answer s answer' s' heading c →
          Records answer' s' requests' heading →
          (serve answer' (start s') [.setFile heading, .registerColumn c]).column c.path =
            .ok column ∧
          (RegistersFirst answer' s' requests' c →
            (serve answer' (start s') requests').column c.path = .ok column)) ∧
    (∀ cs cs' : List ColumnFacts, cs.Perm cs' → (cs.map (·.path)).Nodup → ∀ path,
      (serve answer (start s) (requests ++ cs.map .registerColumn)).column path =
        (serve answer (start s) (requests ++ cs'.map .registerColumn)).column path) := by
  have hsound := sound_serve answer s requests
  refine ⟨fun path hsome => ?_, fun heading c hrecords hregisters => ?_,
    fun cs cs' hperm hdistinct path => ?_⟩
  · have hfile : (serve answer (start s) requests).file.isSome = true := by
      refine Option.isSome_iff_ne_none.mpr fun hnone => ?_
      rw [hsound.columns_of_file_eq_none hnone] at hsome
      cases hsome
    obtain ⟨heading, hrecords⟩ := exists_records hfile
    obtain ⟨c, hpath, hregisters⟩ := exists_registersFirst hsome
    exact ⟨heading, c, hpath, hrecords, hregisters⟩
  · obtain ⟨facts, hfacts, hfile⟩ := file_of_records hrecords
    obtain ⟨facts₁, column, hfile₁, hcolumn, hget⟩ := get?_of_registersFirst hregisters
    obtain rfl := Option.some.inj (hfile.symm.trans hfile₁)
    refine ⟨column, column_of_get? hsound hget, column_serve_pair hfacts hcolumn, ?_⟩
    intro answer' s' requests' hkeys hrecords'
    obtain ⟨facts', hfacts', hfile'⟩ := file_of_records hrecords'
    have hcolumn' : columnFrom answer' s' facts' c = some column :=
      (columnFrom_eq hkeys hfacts hfacts').symm.trans hcolumn
    refine ⟨column_serve_pair hfacts' hcolumn', fun hregisters' => ?_⟩
    obtain ⟨facts₂, column', hfile₂, hcolumn₂, hget'⟩ := get?_of_registersFirst hregisters'
    obtain rfl := Option.some.inj (hfile'.symm.trans hfile₂)
    obtain rfl := Option.some.inj (hcolumn'.symm.trans hcolumn₂)
    exact column_of_get? (sound_serve answer' s' requests') hget'
  · rw [serve_append, serve_append]
    exact column_perm hsound hperm hdistinct path

end Readers

namespace Sample

/-- Requests in which other columns come before and after the column `b`, one of them hidden. -/
def mixed : List ReaderRequest :=
  [.setFile heading, .registerColumn unknown, .registerColumn shared, .footer, .registerColumn own,
    .registerColumn own]

/-- Settings that give other columns' keys otherwise. -/
def otherKeys : ReadSettings :=
  { keys with columnKeys := .ofList [(⟨["b"]⟩, ownKey), (⟨["c"]⟩, key)] }

/-- The column `b` before one whose key is unknown. -/
def early : List ReaderRequest :=
  [.setFile heading, .registerColumn own, .registerColumn unknown]

end Sample

open Sample in
/-- Two readers that differ about the column `c` and agree about the column `b`. -/
theorem column_alone_mixed :
    Records nobody keys mixed heading ∧ RegistersFirst nobody keys mixed own ∧
      SameKeys nobody keys nobody otherKeys heading own ∧
      (serve nobody (start keys) mixed).column unknown.path = .ok ⟨unknown.path, 2, .hidden⟩ ∧
      (serve nobody (start otherKeys) early).column unknown.path =
        .ok ⟨unknown.path, 2, .ownKey (.ofKey .aesGcmCtrV1 key)⟩ ∧
      (serve nobody (start keys) mixed).column own.path =
        (serve nobody (start otherKeys) early).column own.path ∧
      (serve nobody (start keys) ([.setFile heading] ++
        [shared, own].map .registerColumn)).column own.path =
        (serve nobody (start keys) ([.setFile heading] ++
          [own, shared].map .registerColumn)).column own.path := by
  have hrecords : Records nobody keys mixed heading := ⟨[], mixed.tail, rfl, nofun, rfl⟩
  have hregisters : RegistersFirst nobody keys mixed own :=
    ⟨mixed.take 4, mixed.drop 5, rfl, nofun, rfl⟩
  have hsame : SameKeys nobody keys nobody otherKeys heading own := ⟨rfl, fun _ _ => rfl⟩
  have hrecords' : Records nobody otherKeys early heading := ⟨[], early.tail, rfl, nofun, rfl⟩
  have hregisters' : RegistersFirst nobody otherKeys early own :=
    ⟨early.take 1, early.drop 2, rfl, nofun, rfl⟩
  obtain ⟨-, halone, -⟩ := column_alone nobody keys mixed
  obtain ⟨column, hcolumn, -, hothers⟩ := halone heading own hrecords hregisters
  obtain ⟨-, -, horder⟩ := column_alone nobody keys [.setFile heading]
  exact ⟨hrecords, hregisters, hsame, rfl, rfl,
    hcolumn.trans ((hothers nobody otherKeys early hsame hrecords').2 hregisters').symm,
    horder _ _ (.swap own shared []) (by decide) own.path⟩

end FileReader

end ModularEncryption
