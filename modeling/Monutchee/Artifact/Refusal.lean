import Monutchee.Artifact.Schema

/-!
# What the validation of a manifest raises (mnc-artifact.py:116-151, 203-286)

A value that is not a manifest is refused with an ArtifactError wherever the validator tests a
type before it uses the value. One test has none before it: a mode is looked up in a set, and a
list or an object cannot be hashed. `Unhashable` says when the validator gets there.
-/

namespace Monutchee.Artifact
open Monutchee.Lib

/-- The error that the command line reports. -/
def Reported (e : Error) : Prop := ∃ message, e = .artifactError message

/-- A file in order up to its mode, which is a list or an object. -/
structure UnhashableMode (path : Text) (value : Json) : Prop where
  safe : SafePath path
  free : path ∉ RESERVED_NAMES
  descriptor : ∃ descriptor mode, value = .obj descriptor ∧ ExactKeys descriptor descriptorFields [] ∧
    (∃ n : ℕ, descriptor.lookup (text "size") = some (.int n)) ∧
    (∃ s, descriptor.lookup (text "sha256") = some (.str s) ∧ sha256Fullmatch s = true) ∧
    descriptor.lookup (text "mode") = some mode ∧ ((∃ l, mode = .arr l) ∨ ∃ ps, mode = .obj ps)

/-- What is checked before the files. -/
structure HeaderAccepted (lib : Python) (m : Parts) : Prop where
  exact : ExactKeys m.root rootFields []
  schema : m.root.lookup (text "schema") = some (.str SCHEMA)
  version : ∃ v, m.root.lookup (text "formatVersion") = some v ∧ v.number? = some FORMAT_VERSION
  artifact : m.root.lookup (text "artifact") = some (.obj m.artifact)
  artifactAccepted : ArtifactAccepted lib m.artifact
  executor : m.root.lookup (text "executor") = some (.obj m.executor)
  executorAccepted : ExecutorAccepted m.executor m.entrypoint m.tftpRoot
  files : m.root.lookup (text "files") = some (.obj m.files)

/-- The header is in order, and so is every file before the first with such a mode. -/
def Unhashable (lib : Python) (v : Json) : Prop :=
  ∃ (m : Parts) (before : List (Text × Json)) (path : Text) (value : Json) (behind : List (Text × Json)),
    v = .obj m.root ∧ HeaderAccepted lib m ∧ m.files = before ++ (path, value) :: behind ∧
      (∀ file ∈ before, FileAccepted file.1 file.2) ∧ UnhashableMode path value

variable {lib : Python} {v : Json} {P : Error → Prop}

/-! ### The checks that report -/

theorem only_raise {α : Type} {message : Text} (hP : ∀ m, P (.artifactError m)) :
    Only P (raise message : Except Error α) := Only.raised rfl (hP message)

theorem only_dictionary {message : Text} {value : Json} (hP : ∀ m, P (.artifactError m)) :
    Only P (dictionary message value) := by
  unfold dictionary
  split
  · exact Only.ok rfl
  · exact only_raise hP

theorem only_stringThat {test : Text → Bool} {message : Text} {value : Json} (hP : ∀ m, P (.artifactError m)) :
    Only P (stringThat test message value) := by
  unfold stringThat
  split
  · exact Only.ok rfl
  · exact only_raise hP

theorem only_requireExactKeys {label : Text} {value : List (Text × Json)} {required optional : List Text}
    (hP : ∀ m, P (.artifactError m)) : Only P (requireExactKeys label value required optional) := by
  unfold requireExactKeys
  exact (Only.refuse (hP _)).bind fun _ _ => Only.refuse (hP _)

/-- A key that the validator has required is there when it is read. -/
theorem only_item {value : List (Text × Json)} {required optional : List Text} {key : Text}
    (h : ExactKeys value required optional) (hk : key ∈ required) : Only P (item value key) := by
  obtain ⟨p, hp, rfl⟩ := List.mem_map.mp (h.present key hk)
  have hsome : (value.lookup p.1).isSome = true := List.lookup_isSome_iff.mpr ⟨p, hp, beq_self_eq_true _⟩
  obtain ⟨w, hw⟩ := Option.isSome_iff_exists.mp hsome
  exact Only.ok (item_ok.mpr hw)

theorem only_safeRelativePath {value : Text} (hP : ∀ m, P (.artifactError m)) :
    Only P (safeRelativePath lib value) := by
  unfold safeRelativePath
  refine (Only.refuse (hP _)).bind fun _ _ => (Only.refuse (hP _)).bind fun _ _ => ?_
  refine (Only.refuse (hP _)).bind fun _ _ => (Only.refuse (hP _)).bind fun _ _ => ?_
  exact Only.ok rfl

theorem only_validateCreatedUtc {value : Json} (hP : ∀ m, P (.artifactError m)) :
    Only P (validateCreatedUtc lib value) := by
  unfold validateCreatedUtc validateText
  refine (only_stringThat hP).bind fun s _ => (Only.refuse (hP _)).bind fun _ _ => ?_
  split
  · exact only_raise hP
  · exact (Only.refuse (hP _)).bind fun _ _ => Only.ok rfl

theorem only_validateArtifact {value : Json} (hP : ∀ m, P (.artifactError m)) :
    Only P (validateArtifact lib value) := by
  unfold validateArtifact validateText validateIdentifier
  refine (only_dictionary hP).bind fun artifact _ => (only_requireExactKeys hP).bind fun _ hkeys => ?_
  have hk := requireExactKeys_ok.mp hkeys
  refine Only.bind (Only.forM ?_) fun _ _ => ?_
  · intro before field behind hfields _
    have hsub : identifierFields ⊆ artifactFields := by simp [identifierFields, artifactFields]
    have hfield : field ∈ artifactFields := by
      apply hsub
      rw [hfields]
      simp
    refine (only_item hk hfield).bind fun value _ => (only_stringThat hP).bind fun _ _ => ?_
    exact Only.ok rfl
  · refine (only_item hk (by simp [artifactFields])).bind fun version _ => (only_stringThat hP).bind fun _ _ => ?_
    refine (only_item hk (by simp [artifactFields])).bind fun created _ => ?_
    exact (only_validateCreatedUtc hP).bind fun _ _ => Only.ok rfl

theorem only_executorPath {label : Text} {value : Json} (hP : ∀ m, P (.artifactError m)) :
    Only P (executorPath lib label value) := by
  unfold executorPath validateText
  refine (only_stringThat hP).bind fun s _ => (only_safeRelativePath hP).bind fun _ _ => ?_
  exact Only.ok rfl

theorem only_validateExecutor {value : Json} (hP : ∀ m, P (.artifactError m)) :
    Only P (validateExecutor lib value) := by
  unfold validateExecutor validateIdentifier
  refine (only_dictionary hP).bind fun executor _ => (only_requireExactKeys hP).bind fun _ hkeys => ?_
  have hk := requireExactKeys_ok.mp hkeys
  refine (only_item hk (by simp [executorFields])).bind fun kind _ => (only_stringThat hP).bind fun _ _ => ?_
  refine (only_item hk (by simp [executorFields])).bind fun entry _ => (only_executorPath hP).bind fun _ _ => ?_
  split
  · exact Only.ok rfl
  · exact (only_executorPath hP).bind fun _ _ => Only.ok rfl

theorem only_checkEntrypoint {files : List (Text × Json)} {entrypoint : Text} (hP : ∀ m, P (.artifactError m))
    (hfiles : ∀ path value, (path, value) ∈ files → FileAccepted path value) :
    Only P (checkEntrypoint files entrypoint) := by
  unfold checkEntrypoint
  refine (Only.refuse (hP _)).bind fun _ hin => ?_
  simp only [refuse_ok, decide_eq_false_iff_not, not_not] at hin
  refine (@only_item _ _ (keys files) [] _ ⟨fun k hk => hk, fun k hk => .inl hk⟩ hin).bind ?_
  intro file hfile
  refine (only_dictionary hP).bind fun descriptor hd => ?_
  obtain ⟨-, -, descriptor', hdescriptor, haccepted⟩ := hfiles _ _ (mem_of_lookup (item_ok.mp hfile))
  obtain rfl : descriptor' = descriptor := by
    rw [dictionary_ok.mp hd] at hdescriptor
    exact (Json.obj.inj hdescriptor).symm
  refine (only_item haccepted.exact (by simp [descriptorFields])).bind fun mode _ => ?_
  exact Only.refuse (hP _)

theorem only_checkTftpRoot {files : List (Text × Json)} {tftpRoot : Option Text} (hP : ∀ m, P (.artifactError m)) :
    Only P (checkTftpRoot files tftpRoot) := by
  unfold checkTftpRoot
  split
  · exact Only.ok rfl
  · exact Only.refuse (hP _)

/-! ### The mode -/

/-- A file that is raised for otherwise has a mode that cannot be hashed. -/
theorem only_validateFile {path : Text} {value : Json} (hP : ∀ m, P (.artifactError m))
    (htype : UnhashableMode path value → P .typeError) : Only P (validateFile lib (path, value)) := by
  unfold validateFile
  refine (only_safeRelativePath hP).bind fun p hsafe => (Only.refuse (hP _)).bind fun _ hfree => ?_
  refine (only_dictionary hP).bind fun descriptor hd => (only_requireExactKeys hP).bind fun _ hkeys => ?_
  have hk := requireExactKeys_ok.mp hkeys
  refine (only_item hk (by simp [descriptorFields])).bind fun size hsize => (Only.refuse (hP _)).bind fun _ hn => ?_
  refine (only_item hk (by simp [descriptorFields])).bind fun sha hsha => ?_
  refine (only_stringThat hP).bind fun s hs => ?_
  refine (only_item hk (by simp [descriptorFields])).bind fun mode hmode => ?_
  simp only [safeRelativePath_ok, refuse_ok, dictionary_ok, item_ok, stringThat_ok, decide_eq_false_iff_not,
    Bool.not_eq_false', sizeValid_iff] at hsafe hfree hd hsize hn hsha hs hmode
  obtain ⟨rfl, hs⟩ := hs
  obtain ⟨n, rfl⟩ := hn
  have hunhashable : ((∃ l, mode = .arr l) ∨ ∃ ps, mode = .obj ps) → UnhashableMode path value := fun h =>
    ⟨hsafe.1, hfree, descriptor, mode, hd, hk, ⟨n, hsize⟩, ⟨s, hsha, hs⟩, hmode, h⟩
  refine Only.bind ?_ fun known _ => Only.refuse (hP _)
  unfold modeValid
  split
  · exact Only.raised rfl (htype (hunhashable (.inl ⟨_, rfl⟩)))
  · exact Only.raised rfl (htype (hunhashable (.inr ⟨_, rfl⟩)))
  · exact Only.ok rfl
  · exact Only.ok rfl

theorem UnhashableMode.raises {path : Text} {value : Json} (h : UnhashableMode path value) :
    validateFile lib (path, value) = .error .typeError := by
  obtain ⟨hsafe, hfree, descriptor, mode, rfl, hk, ⟨n, hsize⟩, ⟨s, hsha, hs⟩, hmode, hunhashable⟩ := h
  have hvalid : modeValid mode = .error .typeError := by
    rcases hunhashable with ⟨l, rfl⟩ | ⟨ps, rfl⟩
    · rfl
    · rfl
  unfold validateFile
  rw [bind_of_ok (safeRelativePath_ok.mpr ⟨hsafe, rfl⟩), bind_of_ok (a := ()) (refuse_ok.mpr (by simpa using hfree)),
    bind_of_ok (dictionary_ok.mpr rfl), bind_of_ok (a := ()) (requireExactKeys_ok.mpr hk), bind_of_ok (item_ok.mpr hsize),
    bind_of_ok (a := ()) (refuse_ok.mpr (by simp [sizeValid])), bind_of_ok (item_ok.mpr hsha),
    bind_of_ok (stringThat_ok.mpr ⟨rfl, hs⟩), bind_of_ok (item_ok.mpr hmode), hvalid]
  rfl

/-! ### The whole manifest -/

theorem only_validateManifest (hP : ∀ m, P (.artifactError m)) (htype : Unhashable lib v → P .typeError) :
    Only P (validateManifest lib v) := by
  unfold validateManifest
  refine (only_dictionary hP).bind fun root hroot => (only_requireExactKeys hP).bind fun _ hkeys => ?_
  have hk := requireExactKeys_ok.mp hkeys
  refine (only_item hk (by simp [rootFields])).bind fun schema hschema => (Only.refuse (hP _)).bind fun _ hs => ?_
  refine (only_item hk (by simp [rootFields])).bind fun version hversion => (Only.refuse (hP _)).bind fun _ hv => ?_
  refine (only_item hk (by simp [rootFields])).bind fun artifact hartifact => ?_
  refine (only_validateArtifact hP).bind fun _ hart => ?_
  refine (only_item hk (by simp [rootFields])).bind fun executor hexecutor => ?_
  refine (only_validateExecutor hP).bind fun paths hexec => ?_
  refine (only_item hk (by simp [rootFields])).bind fun value hvalue => ?_
  refine (only_dictionary hP).bind fun files hfiles => (Only.refuse (hP _)).bind fun _ hne => ?_
  simp only [dictionary_ok, item_ok, refuse_ok, decide_eq_false_iff_not, not_not, str?_eq, validateArtifact_ok]
    at hroot hschema hs hversion hv hartifact hart hexecutor hvalue hfiles
  subst hroot hs hfiles
  obtain ⟨artifact, rfl, hart⟩ := hart
  obtain ⟨executor, rfl, haccepted⟩ := validateExecutor_ok.mp hexec
  have hheader : HeaderAccepted lib ⟨root, artifact, executor, files, paths.1, paths.2⟩ :=
    ⟨hk, hschema, ⟨version, hversion, hv⟩, hartifact, hart, hexecutor, haccepted, hvalue⟩
  refine Only.bind (Only.forM ?_) fun _ hall => ?_
  · intro before file behind hsplit hbefore
    refine only_validateFile hP fun hmode => htype ?_
    exact ⟨_, before, file.1, file.2, behind, rfl, hheader, hsplit, fun f hf => validateFile_ok.mp (hbefore f hf), hmode⟩
  · have hfine : ∀ path value, (path, value) ∈ files → FileAccepted path value :=
      fun path value hm => validateFile_ok.mp (forM_ok.mp hall (path, value) hm)
    refine (only_checkEntrypoint hP hfine).bind fun _ _ => (only_checkTftpRoot hP).bind fun _ _ => ?_
    exact Only.ok rfl

theorem Unhashable.raises (h : Unhashable lib v) : validateManifest lib v = .error .typeError := by
  obtain ⟨m, before, path, value, behind, rfl, hheader, hfiles, hbefore, hmode⟩ := h
  obtain ⟨version, hversion, hv⟩ := hheader.version
  have hne : m.files.isEmpty = false := by simp [hfiles]
  have hloop : m.files.forM (validateFile lib) = .error .typeError := by
    rw [hfiles]
    exact forM_error (fun f hf => validateFile_ok.mpr (hbefore f hf)) hmode.raises
  unfold validateManifest
  rw [bind_of_ok (dictionary_ok.mpr rfl), bind_of_ok (a := ()) (requireExactKeys_ok.mpr hheader.exact),
    bind_of_ok (item_ok.mpr hheader.schema), bind_of_ok (a := ()) (refuse_ok.mpr (by simp [str?])),
    bind_of_ok (item_ok.mpr hversion), bind_of_ok (a := ()) (refuse_ok.mpr (by simp [hv])),
    bind_of_ok (item_ok.mpr hheader.artifact), bind_of_ok (a := ()) (validateArtifact_ok.mpr ⟨_, rfl, hheader.artifactAccepted⟩),
    bind_of_ok (item_ok.mpr hheader.executor),
    bind_of_ok (validateExecutor_ok.mpr ⟨_, rfl, hheader.executorAccepted⟩)]
  show (item m.root (text "files") >>= _) = _
  rw [bind_of_ok (item_ok.mpr hheader.files), bind_of_ok (dictionary_ok.mpr rfl), bind_of_ok (a := ()) (refuse_ok.mpr hne), hloop]
  rfl

/-- The validator returns its argument or raises an ArtifactError exactly if it does not get to a
mode that is a list or an object. -/
theorem validateManifest_reports_iff (lib : Python) (v : Json) :
    (validateManifest lib v = .ok v ∨ ∃ e, validateManifest lib v = .error e ∧ Reported e) ↔
      ¬ Unhashable lib v := by
  constructor
  · rintro (h | ⟨e, h, message, rfl⟩) hbad
    · rw [hbad.raises] at h
      cases h
    · rw [hbad.raises] at h
      cases h
  · intro hgood
    cases h : validateManifest lib v with
    | ok w =>
      obtain ⟨rfl, -⟩ := validateManifest_ok.mp h
      exact .inl rfl
    | error e =>
      exact .inr ⟨e, rfl, only_validateManifest (fun m => ⟨m, rfl⟩) (fun hbad => absurd hbad hgood) e h⟩

namespace Sample

/-- The manifest of the script, with a list for the mode of its file. -/
def listedMode : Json := .obj
  [(text "schema", .str SCHEMA), (text "formatVersion", .int 2), (text "artifact", .obj artifact),
    (text "executor", .obj executor), (text "files", .obj [(text "bin/run", .obj
      [(text "size", .int 10), (text "sha256", .str digest), (text "mode", .arr [])])])]

end Sample

/-- A TypeError, which the command line does not catch. -/
theorem validateManifest_raises_typeError :
    validateManifest Sample.python Sample.listedMode = .error .typeError ∧ ¬ Reported .typeError := by
  refine ⟨rfl, ?_⟩
  rintro ⟨message, h⟩
  cases h

end Monutchee.Artifact
