import Monutchee.Artifact.Manifest

/-!
# The public schema (mnc-station-artifact-v2.schema.json)

The schema states the format a second time, in the keywords of JSON Schema with ECMA-262
patterns. `format` is an annotation and admits every value. In the pattern of a relative path
five lookaheads stand where the validator splits the text at its slashes; the two meet in
`segment_mem_splitOn`.
-/

namespace Monutchee.Artifact
open Monutchee.Lib

/-! ### Patterns -/

def literal (c : ℕ) : Regex ℕ := .char (· == c)

/-- The dot, which stops at a line terminator. -/
def anyCharacter : Regex ℕ := .char fun c => c ≠ 10 && c ≠ 13 && c ≠ 0x2028 && c ≠ 0x2029

/-- `(?!.*r)` -/
def nowhere (r : Regex ℕ) : Regex ℕ := .notAhead (.seq (.star anyCharacter) r)

/-- `^[A-Za-z0-9][A-Za-z0-9._+-]*$` -/
def identifierPattern : Regex ℕ :=
  .seq .start (.seq (.char alphanumeric) (.seq (.star (.char identifierCharacter)) .finish))

/-- `^[^\r\n\u0000]+$` -/
def versionPattern : Regex ℕ :=
  .seq .start (.seq (.plus (.char fun c => c ≠ 13 && c ≠ 10 && c ≠ 0)) .finish)

/-- `Z$` -/
def createdUtcPattern : Regex ℕ := .seq (literal 90) .finish

/-- `^[0-9a-f]{64}$` -/
def sha256Pattern : Regex ℕ := .seq .start (.seq (.times (.char hexDigit) 64) .finish)

/-- `(?:^|/)\.{1,2}(?:/|$)` -/
def dotSegment : Regex ℕ :=
  .seq (.alt .start (literal slash))
    (.seq (.seq (literal 46) (.optional (literal 46))) (.alt (literal slash) .finish))

/-- `^(?!/)(?!.*:)(?!.*\\)(?!.*(?:^|/)\.{1,2}(?:/|$))(?!.*//)[^\u0000-\u001F\u007F]+$` -/
def relativePathPattern : Regex ℕ :=
  .seq .start (.seq (.notAhead (literal slash)) (.seq (nowhere (literal 58))
    (.seq (nowhere (literal 92)) (.seq (nowhere dotSegment)
      (.seq (nowhere (.seq (literal slash) (literal slash)))
        (.seq (.plus (.char fun c => !control c)) .finish))))))

/-! ### The schema -/

def strings (l : List String) : List Json := l.map fun s => .str (text s)

def identifierSchema : Schema := .allOf [.type .string, .pattern identifierPattern]

def relativePathSchema : Schema :=
  .allOf [.type .string, .minLength 1, .pattern relativePathPattern]

def artifactSchema : Schema :=
  let members : List (Text × Schema) := [
    (text "name", identifierSchema),
    (text "vendor", identifierSchema),
    (text "operation", identifierSchema),
    (text "product", identifierSchema),
    (text "machine", identifierSchema),
    (text "version", .allOf [.type .string, .minLength 1, .pattern versionPattern]),
    (text "buildId", identifierSchema),
    (text "createdUtc", .allOf [.type .string, .pattern createdUtcPattern])]
  .allOf [.type .object, .additionalProperties (members.map Prod.fst) .never,
    .required artifactFields, .properties members]

def executorSchema : Schema :=
  let members : List (Text × Schema) := [
    (text "type", identifierSchema),
    (text "entrypoint", relativePathSchema),
    (text "tftpRoot", relativePathSchema)]
  .allOf [.type .object, .additionalProperties (members.map Prod.fst) .never,
    .required executorFields, .properties members]

def descriptorSchema : Schema :=
  let members : List (Text × Schema) := [
    (text "size", .allOf [.type .integer, .minimum 0]),
    (text "sha256", .allOf [.type .string, .pattern sha256Pattern]),
    (text "mode", .enum (strings ["0644", "0755"]))]
  .allOf [.type .object, .additionalProperties (members.map Prod.fst) .never,
    .required descriptorFields, .properties members]

def filesSchema : Schema :=
  .allOf [.type .object, .minProperties 1,
    .propertyNames (.allOf [relativePathSchema,
      .not (.enum (strings ["manifest.json", "manifest.sig"]))]),
    .additionalProperties [] descriptorSchema]

def manifestSchema : Schema :=
  let members : List (Text × Schema) := [
    (text "schema", .const (.str (text "mnc-station-artifact"))),
    (text "formatVersion", .const (.int 2)),
    (text "artifact", artifactSchema),
    (text "executor", executorSchema),
    (text "files", filesSchema)]
  .allOf [.type .object, .additionalProperties (members.map Prod.fst) .never,
    .required rootFields, .properties members]

/-! ### Patterns of single fields -/

theorem identifierPattern_test {s : Text} (h : identifierFullmatch s = true) :
    identifierPattern.test s := by
  cases s with
  | nil => cases h
  | cons c rest =>
    simp only [identifierFullmatch, Bool.and_eq_true, List.all_eq_true] at h
    have hall : ∀ d ∈ c :: rest, identifierCharacter d = true := by
      intro d hd
      rcases List.mem_cons.mp hd with rfl | hd
      · simp [identifierCharacter, h.1]
      · exact h.2 d hd
    have hlen : 0 < (c :: rest).length := Nat.succ_pos _
    exact ⟨0, _, 0, ⟨rfl, rfl⟩, 1, Regex.matches_char hlen h.1, _,
      Regex.matches_star_char hall 1 hlen, rfl, rfl⟩

theorem versionPattern_test {s : Text} (h : singleLine s = true) : versionPattern.test s := by
  simp only [singleLine, Bool.and_eq_true, Bool.not_eq_true', List.isEmpty_eq_false_iff,
    List.any_eq_false] at h
  refine ⟨0, _, 0, ⟨rfl, rfl⟩, _, Regex.matches_plus_char (fun c hc => ?_) h.1, rfl, rfl⟩
  have := h.2 c hc
  simp only [control, Bool.or_eq_true, decide_eq_true_eq, beq_iff_eq, not_or] at this
  simp only [ne_eq, decide_not, Bool.and_eq_true, Bool.not_eq_true', decide_eq_false_iff_not]
  omega

theorem createdUtcPattern_test {s : Text} (h : s.getLast? = some 90) : createdUtcPattern.test s := by
  rw [List.getLast?_eq_getElem?] at h
  have hlen : s.length - 1 < s.length := by
    by_contra hn
    rw [List.getElem?_eq_none (by omega)] at h
    cases h
  refine ⟨s.length - 1, s.length, s.length, ⟨by omega, 90, h, rfl⟩, rfl, rfl⟩

theorem sha256Pattern_test {s : Text} (h : sha256Fullmatch s = true) : sha256Pattern.test s := by
  simp only [sha256Fullmatch, Bool.and_eq_true, beq_iff_eq, List.all_eq_true] at h
  exact ⟨0, _, 0, ⟨rfl, rfl⟩, _, Regex.matches_times_char h.2 64 0 (by omega), rfl, rfl⟩

/-! ### Relative paths -/

/-- A stretch of the text that begins at its start or after an `x`, and ends at its end or before
an `x`, is one of the parts the text is split into. -/
theorem segment_mem_splitOn {x i : ℕ} {s d v : Text} (hdrop : s.drop i = d ++ v) (hd : x ∉ d)
    (hi : i = 0 ∨ ∃ k, i = k + 1 ∧ s[k]? = some x) (hv : v = [] ∨ ∃ v', v = x :: v') :
    d ∈ s.splitOn x := by
  have hright : d ∈ (d ++ v).splitOn x := by
    rcases hv with rfl | ⟨v', rfl⟩
    · rw [List.append_nil, List.splitOn_eq_singleton hd]
      exact List.mem_cons_self ..
    · rw [List.splitOn_append_cons_self_of_not_mem hd]
      exact List.mem_cons_self ..
  have hsplit : s = s.take i ++ (d ++ v) := by
    rw [← hdrop, List.take_append_drop]
  rcases hi with rfl | ⟨k, rfl, hk⟩
  · rw [hsplit]
    exact hright
  · have htake : s.take (k + 1) = s.take k ++ [x] := by
      rw [List.take_add_one, hk]
      rfl
    rw [hsplit, htake, List.append_assoc, List.singleton_append, List.splitOn_append_cons_self]
    exact List.mem_append_right _ hright

theorem drop_of_getElem? {i c : ℕ} {s : Text} (h : s[i]? = some c) : s.drop i = c :: s.drop (i + 1) := by
  obtain ⟨hlt, he⟩ := List.getElem?_eq_some_iff.mp h
  rw [List.drop_eq_getElem_cons hlt, he]

theorem matches_literal {s : Text} {c i j : ℕ} (h : (literal c).Matches s i j) :
    j = i + 1 ∧ s[i]? = some c := by
  obtain ⟨hj, d, hd, hc⟩ := h
  rw [eq_of_beq hc] at hd
  exact ⟨hj, hd⟩

/-- What follows a dot segment: the rest of the text, empty or behind a slash. -/
theorem after_segment {s : Text} {i j : ℕ} (h : (Regex.alt (literal slash) .finish).Matches s i j) :
    s.drop i = [] ∨ ∃ v', s.drop i = slash :: v' := by
  rcases h with h | ⟨-, h⟩
  · exact .inr ⟨_, drop_of_getElem? (matches_literal h).2⟩
  · exact .inl (List.drop_eq_nil_iff.mpr (by omega))

/-- Where `dotSegment` matches, the validator finds a part `.` or `..`. -/
theorem dotSegment_part {s : Text} {i j : ℕ} (h : dotSegment.Matches s i j) :
    text "." ∈ s.splitOn slash ∨ text ".." ∈ s.splitOn slash := by
  obtain ⟨k, hstart, k', ⟨n, hdot, hmore⟩, hend⟩ := h
  have hk : k = 0 ∨ ∃ m, k = m + 1 ∧ s[m]? = some slash := by
    rcases hstart with ⟨rfl, rfl⟩ | hslash
    · exact .inl rfl
    · exact .inr ⟨i, matches_literal hslash⟩
  obtain ⟨rfl, hfirst⟩ := matches_literal hdot
  rcases hmore with hmore | hmore
  · obtain ⟨rfl, hsecond⟩ := matches_literal hmore
    right
    have hdrop : s.drop k = text ".." ++ s.drop (k + 1 + 1) := by
      rw [drop_of_getElem? hfirst, drop_of_getElem? hsecond]
      rfl
    exact segment_mem_splitOn hdrop (by decide) hk (after_segment hend)
  · obtain rfl : k + 1 = k' := hmore
    left
    have hdrop : s.drop k = text "." ++ s.drop (k + 1) := by
      rw [drop_of_getElem? hfirst]
      rfl
    exact segment_mem_splitOn hdrop (by decide) hk (after_segment hend)

/-- Two slashes in a row leave an empty part. -/
theorem doubleSlash_part {s : Text} {i j : ℕ}
    (h : (Regex.seq (literal slash) (literal slash)).Matches s i j) : [] ∈ s.splitOn slash := by
  obtain ⟨k, h1, h2⟩ := h
  obtain ⟨rfl, hfirst⟩ := matches_literal h1
  obtain ⟨-, hsecond⟩ := matches_literal h2
  exact segment_mem_splitOn (d := []) rfl (by simp) (.inr ⟨i, rfl, hfirst⟩)
    (.inr ⟨_, drop_of_getElem? hsecond⟩)

/-- The split-based check and the five lookaheads: every safe path passes the pattern. -/
theorem relativePathPattern_test {s : Text} (h : SafePath s) : relativePathPattern.test s := by
  have hslash : ∀ j, ¬ (literal slash).Matches s 0 j := by
    intro j hm
    have h0 : s[0]? = some slash := (matches_literal hm).2
    rw [← List.head?_eq_getElem?] at h0
    exact (h.parts [] (head_splitOn h0)).1 rfl
  have habsent : ∀ c, c ∉ s → ∀ k j, ¬ (literal c).Matches s k j := by
    intro c hc k j hm
    exact hc (List.mem_of_getElem? (matches_literal hm).2)
  have hdots : ∀ k j, ¬ dotSegment.Matches s k j := by
    intro k j hm
    rcases dotSegment_part hm with hp | hp
    · exact (h.parts _ hp).2.1 rfl
    · exact (h.parts _ hp).2.2 rfl
  have hdouble : ∀ k j, ¬ (Regex.seq (literal slash) (literal slash)).Matches s k j := by
    intro k j hm
    exact (h.parts _ (doubleSlash_part hm)).1 rfl
  have hprintable : ∀ c ∈ s, (!control c) = true := by
    intro c hc
    rw [h.printable c hc]
    rfl
  exact ⟨0, _, 0, ⟨rfl, rfl⟩, 0, ⟨rfl, hslash⟩, 0, Regex.matches_notAhead (habsent 58 h.noColon),
    0, Regex.matches_notAhead (habsent 92 h.noBackslash), 0, Regex.matches_notAhead hdots,
    0, Regex.matches_notAhead hdouble, _, Regex.matches_plus_char hprintable h.nonempty, rfl, rfl⟩

/-! ### Objects -/

theorem required_of_exactKeys {ps : List (Text × Json)} {required optional : List Text}
    (h : ExactKeys ps required optional) : Schema.required required (.obj ps) := by
  intro qs hq k hk
  cases hq
  rw [List.lookup_isSome_iff]
  obtain ⟨p, hp, rfl⟩ := List.mem_map.mp (h.present k hk)
  exact ⟨p, hp, by simp⟩

/-- An object with exactly the keys of `names` has no further property. -/
theorem additional_never {ps : List (Text × Json)} {required optional names : List Text}
    (h : ExactKeys ps required optional) (hnames : ∀ k, k ∈ required ∨ k ∈ optional → k ∈ names) :
    Schema.additionalProperties names .never (.obj ps) := by
  intro qs hq k v hv hk
  cases hq
  exact hk (hnames k (h.known k (mem_keys_of_lookup hv)))

/-- The four keywords of an object schema that leaves no further property. -/
theorem objectSchema_obj {ps : List (Text × Json)} {required optional : List Text}
    {members : List (Text × Schema)} (h : ExactKeys ps required optional)
    (hnames : ∀ k, k ∈ required ∨ k ∈ optional → k ∈ members.map Prod.fst)
    (hmembers : Schema.properties members (.obj ps)) :
    Schema.allOf [.type .object, .additionalProperties (members.map Prod.fst) .never,
      .required required, .properties members] (.obj ps) := by
  simp only [Schema.allOf_cons, Schema.allOf_nil]
  exact ⟨trivial, additional_never h hnames, required_of_exactKeys h, hmembers, trivial⟩

/-- A field whose value is known to meet its schema. -/
theorem property_of_lookup {ps : List (Text × Json)} {schema : Schema} {k : Text} {v : Json}
    (hv : ps.lookup k = some v) (hs : schema v) : ∀ w, ps.lookup k = some w → schema w := by
  intro w hw
  rw [hv] at hw
  cases hw
  exact hs

theorem identifierSchema_str {s : Text} (h : identifierFullmatch s = true) :
    identifierSchema (.str s) := by
  simp only [identifierSchema, Schema.allOf_cons, Schema.allOf_nil, Schema.pattern_str]
  exact ⟨trivial, identifierPattern_test h, trivial⟩

theorem relativePathSchema_str {s : Text} (h : SafePath s) : relativePathSchema (.str s) := by
  simp only [relativePathSchema, Schema.allOf_cons, Schema.allOf_nil, Schema.pattern_str,
    Schema.minLength_str]
  exact ⟨trivial, List.length_pos_iff.mpr h.nonempty, relativePathPattern_test h, trivial⟩

theorem artifactSchema_obj {lib : Python} {artifact : List (Text × Json)}
    (h : ArtifactAccepted lib artifact) : artifactSchema (.obj artifact) := by
  have hident : ∀ field ∈ identifierFields, ∀ w, artifact.lookup field = some w →
      identifierSchema w := by
    intro field hf
    obtain ⟨s, hs, hi⟩ := h.identifiers field hf
    exact property_of_lookup hs (identifierSchema_str hi)
  obtain ⟨version, hv, hline⟩ := h.version
  obtain ⟨created, hc, -, hz, -⟩ := h.created
  have hlong : 1 ≤ version.length := by
    cases version with
    | nil => cases hline
    | cons c rest => exact Nat.succ_pos _
  refine objectSchema_obj h.exact (fun k hk => by simpa [artifactFields] using hk) ?_
  simp only [Schema.properties_cons, Schema.properties_nil]
  refine ⟨hident _ (by decide), hident _ (by decide), hident _ (by decide), hident _ (by decide),
    hident _ (by decide), property_of_lookup hv ?_, hident _ (by decide),
    property_of_lookup hc ?_, trivial⟩
  · simp only [Schema.allOf_cons, Schema.allOf_nil, Schema.minLength_str, Schema.pattern_str]
    exact ⟨trivial, hlong, versionPattern_test hline, trivial⟩
  · simp only [Schema.allOf_cons, Schema.allOf_nil, Schema.pattern_str]
    exact ⟨trivial, createdUtcPattern_test hz, trivial⟩

theorem executorSchema_obj {executor : List (Text × Json)} {entrypoint : Text}
    {tftpRoot : Option Text} (h : ExecutorAccepted executor entrypoint tftpRoot) :
    executorSchema (.obj executor) := by
  obtain ⟨kind, hk, hi⟩ := h.kind
  refine objectSchema_obj h.exact (fun k hk => by simpa [executorFields, or_assoc] using hk) ?_
  simp only [Schema.properties_cons, Schema.properties_nil]
  refine ⟨property_of_lookup hk (identifierSchema_str hi),
    property_of_lookup h.entry (relativePathSchema_str h.entrySafe.2), ?_, trivial⟩
  intro w hw
  rw [h.root] at hw
  obtain ⟨path, hp, rfl⟩ := Option.map_eq_some_iff.mp hw
  exact relativePathSchema_str (h.rootSafe path hp).2

theorem descriptorSchema_obj {descriptor : List (Text × Json)} (h : DescriptorAccepted descriptor) :
    descriptorSchema (.obj descriptor) := by
  obtain ⟨n, hn⟩ := h.size
  obtain ⟨s, hs, hsha⟩ := h.sha256
  obtain ⟨m, hm, hmode⟩ := h.mode
  refine objectSchema_obj h.exact (fun k hk => by simpa [descriptorFields] using hk) ?_
  simp only [Schema.properties_cons, Schema.properties_nil]
  refine ⟨property_of_lookup hn ?_, property_of_lookup hs ?_, property_of_lookup hmode ?_, trivial⟩
  · simp only [Schema.allOf_cons, Schema.allOf_nil]
    refine ⟨⟨n, rfl⟩, ?_, trivial⟩
    intro y hy
    cases hy
    exact_mod_cast Int.natCast_nonneg n
  · simp only [Schema.allOf_cons, Schema.allOf_nil, Schema.pattern_str]
    exact ⟨trivial, sha256Pattern_test hsha, trivial⟩
  · exact ⟨.str m, by simpa [strings, fileModes] using hm, .str m⟩

/-- Equal strings are the same string: `const` and `enum` over strings decide as `==` does. -/
theorem same_str {s t : Text} (h : Json.Same (.str s) (.str t)) : s = t := by
  cases h with
  | number ha _ => cases ha
  | str => rfl

theorem filesSchema_obj {files : List (Text × Json)} (hne : files ≠ [])
    (h : ∀ path value, (path, value) ∈ files → FileAccepted path value) :
    filesSchema (.obj files) := by
  simp only [filesSchema, Schema.allOf_cons, Schema.allOf_nil]
  refine ⟨trivial, ?_, ?_, ?_, trivial⟩
  · intro ps he
    cases he
    rw [Nat.one_le_iff_ne_zero, Ne, List.length_eq_zero_iff, List.dedup_eq_nil, List.map_eq_nil_iff]
    exact hne
  · intro ps he k hk
    cases he
    obtain ⟨⟨path, value⟩, hm, rfl⟩ := List.mem_map.mp hk
    have hfile := h path value hm
    simp only [Schema.allOf_cons, Schema.allOf_nil]
    refine ⟨relativePathSchema_str hfile.safe, ?_, trivial⟩
    rintro ⟨c, hc, hsame⟩
    obtain ⟨name, hname, rfl⟩ := List.mem_map.mp hc
    have hpath : path = text name := same_str hsame
    apply hfile.free
    rw [hpath]
    simp only [List.mem_cons, List.not_mem_nil, or_false] at hname
    rcases hname with rfl | rfl
    · exact List.mem_cons_self ..
    · exact List.mem_cons_of_mem _ (List.mem_cons_self ..)
  · intro ps he k v hv _
    cases he
    obtain ⟨descriptor, rfl, hd⟩ := (h k v (mem_of_lookup hv)).descriptor
    exact descriptorSchema_obj hd

/-- Every value `validate_manifest` accepts is an instance of the public schema. -/
theorem validator_implies_schema (lib : Python) (v w : Json)
    (h : validateManifest lib v = .ok w) : manifestSchema v := by
  obtain ⟨-, m, rfl, hm⟩ := validateManifest_ok.mp h
  obtain ⟨version, hv, hversion⟩ := hm.version
  refine objectSchema_obj hm.exact (fun k hk => by simpa [rootFields] using hk) ?_
  simp only [Schema.properties_cons, Schema.properties_nil]
  exact ⟨property_of_lookup hm.schema (.str _),
    property_of_lookup hv (.number hversion rfl),
    property_of_lookup hm.artifact (artifactSchema_obj hm.artifactAccepted),
    property_of_lookup hm.executor (executorSchema_obj hm.executorAccepted),
    property_of_lookup hm.files (filesSchema_obj hm.nonempty hm.filesAccepted), trivial⟩

/-! ### A manifest of one executable script -/

namespace Sample

def created : Text := text "2024-01-01T00:00:00Z"

/-- Reads the one time stamp of the sample, as the interpreter does. -/
def python : Python where
  repr _ := []
  fromisoformat s := if s = text "2024-01-01T00:00:00+00:00" then some (some 0) else none

/-- SHA-256 of the bytes of `#!/bin/sh` and a line end. -/
def digest : Text := text "a8076d3d28d21e02012b20eaf7dbf75409a6277134439025f282e368e3305abf"

def artifact : List (Text × Json) :=
  [(text "name", .str (text "example-jtag-image")), (text "vendor", .str (text "xilinx")),
    (text "operation", .str (text "jtag-boot")), (text "product", .str (text "example")),
    (text "machine", .str (text "example")), (text "version", .str (text "2026.1")),
    (text "buildId", .str (text "20240101000000")), (text "createdUtc", .str created)]

def executor : List (Text × Json) :=
  [(text "type", .str (text "xilinx-xsdb")), (text "entrypoint", .str (text "bin/run"))]

def descriptor : List (Text × Json) :=
  [(text "size", .int 10), (text "sha256", .str digest), (text "mode", .str (text "0755"))]

def manifest : Json := .obj
  [(text "schema", .str SCHEMA), (text "formatVersion", .int 2), (text "artifact", .obj artifact),
    (text "executor", .obj executor), (text "files", .obj [(text "bin/run", .obj descriptor)])]

end Sample

theorem validator_implies_schema_sample :
    validateManifest Sample.python Sample.manifest = .ok Sample.manifest ∧
      manifestSchema Sample.manifest :=
  have h : validateManifest Sample.python Sample.manifest = .ok Sample.manifest := rfl
  ⟨h, validator_implies_schema Sample.python Sample.manifest Sample.manifest h⟩

end Monutchee.Artifact
