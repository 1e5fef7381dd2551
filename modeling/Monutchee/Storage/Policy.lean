import Monutchee.Lib.Json
import Monutchee.Lib.Act
import Monutchee.Lib.Checked
import Monutchee.Storage.Prepare

/-!
# The storage policy and the partitions it names (mnc-storage:38-41, 47-49, 70-127)

`validate` reads the policy of the product, `resolve` finds the partitions of the three roles in
the tree of `lsblk`. Here the policy is the JSON document itself and the tree is the nested one,
so that both functions can be checked line by line; `Prepare` follows the reset through many
boots and keeps less of them.
-/

namespace Monutchee.Storage.Boot
open Monutchee.Lib

/-- `require` raises a RuntimeError; a missing key or a wrong type raises another exception. -/
inductive Error where
  | runtime (message : Text)
  | other
  deriving DecidableEq

def raise {α : Type} (message : Text) : Except Error α := .error (.runtime message)

def require (ok : Bool) (message : Text) : Except Error Unit := refuse (!ok) (.runtime message)

/-- The same in a program. -/
def check {W : Type} (ok : Bool) (message : Text) : Act W Error Unit := Act.require ok (.runtime message)

@[simp] theorem require_ok {ok : Bool} {message : Text} {u : Unit} :
    require ok message = .ok u ↔ ok = true := by
  simp [require]

def roleName : Role → Text
  | .factory => text "factory"
  | .state => text "state"
  | .data => text "data"

/-! ### Python values -/

/-- A number in a comparison; a truth value counts as 0 or 1. -/
def numeric? : Json → Option ℚ
  | .bool b => some (if b then 1 else 0)
  | v => v.number?

def truthy : Json → Bool
  | .null => false
  | .bool b => b
  | .int n => n ≠ 0
  | .float x => x ≠ 0
  | .notFinite => true
  | .str s => !s.isEmpty
  | .arr l => !l.isEmpty
  | .obj ps => !ps.isEmpty

def hashable : Json → Bool
  | .arr _ => false
  | .obj _ => false
  | _ => true

/-- What a loop over the value goes through. -/
def iterated : Json → Except Error (List Json)
  | .arr l => .ok l
  | .obj ps => .ok (ps.map fun p => .str p.1)
  | .str s => .ok (s.map fun c => .str [c])
  | _ => .error .other

def dictionary : Json → Except Error (List (Text × Json))
  | .obj ps => .ok ps
  | _ => .error .other

def string : Json → Except Error Text
  | .str s => .ok s
  | _ => .error .other

def item (ps : List (Text × Json)) (key : Text) : Except Error Json :=
  match ps.lookup key with
  | some v => .ok v
  | none => .error .other

/-- `p.get(key, default)` -/
def itemOr (ps : List (Text × Json)) (key : Text) (default : Json) : Json :=
  (ps.lookup key).getD default

/-! ### Patterns -/

def lower (c : ℕ) : Bool := 97 ≤ c && c ≤ 122
def letter (c : ℕ) : Bool := lower c || (65 ≤ c && c ≤ 90)
def digit (c : ℕ) : Bool := 48 ≤ c && c ≤ 57

/-- `[A-Za-z0-9_-]` -/
def wordCharacter (c : ℕ) : Bool := letter c || digit c || c == 95 || c == 45

/-- One or more of a class. -/
def some1 (p : ℕ → Bool) (s : Text) : Bool := !s.isEmpty && s.all p

/-- The rest of the text behind a literal. -/
def after (literal s : Text) : Option Text := if literal.isPrefixOf s then some (s.drop literal.length) else none

/-- `/run/[A-Za-z][A-Za-z0-9_-]*` -/
def runtimeRootPattern (s : Text) : Bool :=
  match after (text "/run/") s with
  | some (c :: rest) => letter c && rest.all wordCharacter
  | _ => false

/-- `nvme[0-9]+n[0-9]+`, behind its first word: digits up to the first `n`, digits behind it. -/
def nvmePattern (s : Text) : Bool :=
  match s.dropWhile digit with
  | c :: rest => some1 digit (s.takeWhile digit) && c == 110 && some1 digit rest
  | [] => false

/-- `/dev/(sd[a-z]+|mmcblk[0-9]+|nvme[0-9]+n[0-9]+)` -/
def diskPattern (s : Text) : Bool :=
  (after (text "/dev/sd") s).any (some1 lower) || (after (text "/dev/mmcblk") s).any (some1 digit) ||
    (after (text "/dev/nvme") s).any nvmePattern

/-- `[a-zA-Z0-9_-]{1,16}` -/
def labelPattern (s : Text) : Bool := some1 wordCharacter s && s.length ≤ 16

/-- `[a-zA-Z0-9@_.-]+\.service` -/
def unitPattern (s : Text) : Bool :=
  (text ".service").isSuffixOf s &&
    some1 (fun c => wordCharacter c || c == 64 || c == 46) (s.take (s.length - (text ".service").length))

def slashParts (s : Text) : List Text := s.splitOn 47

/-- `relative` on a string: every other value is refused. -/
def relativePath (s : Text) : Bool :=
  !s.isEmpty && !(text "/").isPrefixOf s && (slashParts s).all fun part => part ∉ [[], text ".", text ".."]

def relative : Json → Bool
  | .str s => relativePath s
  | _ => false

/-! ### validate -/

structure RoleSpec where
  label : Text
  sizeMib : ℕ
  readonly : Bool
  deriving DecidableEq

/-- The policy in the fields the other functions read; `order` is the order of `roles` in the
document. -/
structure Policy where
  disk : Text
  role : Role → RoleSpec
  order : List Role
  stateTmpfsMib : Json
  settings : Text
  productInfo : Text
  resetJournal : Text
  journalDirectory : Text
  runtimeRoot : Text
  target : Option Json

def Policy.label (p : Policy) (role : Role) : Text := (p.role role).label

/-- `/factory`, `/state`, `/data` -/
def mountPath (role : Role) : Text := text "/" ++ roleName role

def matched (pattern : Text → Bool) (message : Text) (value : Json) : Except Error Text := do
  let s ← string value
  require (pattern s) message
  return s

def relativeField (ps : List (Text × Json)) (key : Text) : Except Error Text := do
  let value ← item ps key
  require (relative value) (text "invalid relative policy path")
  string value

def roleSpec (roles : List (Text × Json)) (role : Role) (labels : List Text) : Except Error RoleSpec := do
  let value ← item roles (roleName role)
  let r ← dictionary value
  let mount ← item r (text "mount")
  require (match mount with | .str s => s == mountPath role | _ => false) (text "invalid role mount")
  let labelValue ← item r (text "label")
  let label ← matched labelPattern (text "invalid ext4 label") labelValue
  require (label ∉ labels) (text "duplicate role label")
  let size ← item r (text "size_mib")
  require (match size with | .int n => 0 ≤ n | _ => false) (text "invalid partition size")
  let readonly ← item r (text "readonly")
  require (numeric? readonly == some (if role = .factory then 1 else 0)) (text "factory must be read-only")
  return ⟨label, (match size with | .int n => n.toNat | _ => 0), truthy readonly⟩

def legacyPath (ps : List (Text × Json)) (key : Text) : Except Error Unit := do
  let value ← item ps key
  let s ← string value
  require ((text "/data/").isPrefixOf s && text ".." ∉ slashParts s) (text "invalid legacy path")

def roleOf? (name : Text) : Option Role :=
  if name = text "factory" then some .factory
  else if name = text "state" then some .state
  else if name = text "data" then some .data
  else none

def validate (document : Json) : Except Error Policy := do
  let p ← dictionary document
  require (numeric? (itemOr p (text "schema_version") .null) == some 1) (text "unsupported storage policy")
  let runtimeRoot ← matched runtimeRootPattern (text "invalid runtime root")
    (itemOr p (text "runtime_root") (.str (text "/run/mnc")))
  let diskValue ← item p (text "disk")
  let disk ← matched diskPattern (text "invalid policy disk") diskValue
  let rolesValue ← item p (text "roles")
  let names ← iterated rolesValue
  refuse (!names.all hashable) .other
  require ((names.all fun v => match v with | .str s => (roleOf? s).isSome | _ => false) &&
      roles.all fun role => names.any fun v => match v with | .str s => s == roleName role | _ => false)
    (text "policy needs factory, state and data roles")
  let specs ← dictionary rolesValue
  let factory ← roleSpec specs .factory []
  let state ← roleSpec specs .state [factory.label]
  let data ← roleSpec specs .data [factory.label, state.label]
  require (16 ≤ factory.sizeMib && 32 ≤ state.sizeMib && data.sizeMib == 0) (text "invalid storage layout")
  let tmpfs ← item p (text "state_tmpfs_mib")
  match tmpfs with
  | .notFinite => raise (text "invalid tmpfs limit")
  | _ =>
    match numeric? tmpfs with
    | none => .error .other
    | some n => do
      require (1 ≤ n && n ≤ 256) (text "invalid tmpfs limit")
      let settings ← relativeField p (text "settings")
      let productInfo ← relativeField p (text "product_info")
      let resetJournal ← relativeField p (text "reset_journal")
      let journalValue := itemOr p (text "journal_directory") (.str (text "log/journal"))
      require (relative journalValue) (text "invalid journal directory")
      let journalDirectory ← string journalValue
      legacyPath p (text "legacy_settings")
      legacyPath p (text "legacy_product_info")
      let unitsValue ← item p (text "quiesce_units")
      let units ← iterated unitsValue
      units.forM fun unit => do
        let _ ← matched unitPattern (text "invalid unit") unit
        return ()
      return {
        disk := disk
        role := fun role => match role with
          | .factory => factory
          | .state => state
          | .data => data
        order := (specs.map Prod.fst).filterMap roleOf?
        stateTmpfsMib := tmpfs
        settings := settings
        productInfo := productInfo
        resetJournal := resetJournal
        journalDirectory := journalDirectory
        runtimeRoot := runtimeRoot
        target := p.lookup (text "target") }

/-- What the boot relies on in a validated policy. -/
structure Valid (p : Policy) : Prop where
  distinct : ∀ r r', p.label r = p.label r' → r = r'
  readonly : ∀ r, (p.role r).readonly = decide (r = .factory)
  complete : ∀ r, r ∈ p.order

@[simp] theorem dictionary_ok {v : Json} {ps : List (Text × Json)} :
    dictionary v = .ok ps ↔ v = .obj ps := by
  cases v <;> simp [dictionary]

theorem truthy_numeric {v : Json} {x : ℚ} (h : numeric? v = some x) : truthy v = decide (x ≠ 0) := by
  cases v with
  | bool b =>
    cases b
    · cases h
      rfl
    · cases h
      rfl
  | int n =>
    have hn : (n : ℚ) = x := by simpa [numeric?, Json.number?] using h
    simp only [truthy, ← hn, ne_eq, Rat.intCast_eq_zero_iff]
  | float y =>
    have hy : y = x := by simpa [numeric?, Json.number?] using h
    rw [hy]
    rfl
  | _ => simp [numeric?, Json.number?] at h

theorem roleSpec_ok {rs : List (Text × Json)} {role : Role} {labels : List Text} {spec : RoleSpec}
    (h : roleSpec rs role labels = .ok spec) :
    spec.label ∉ labels ∧ spec.readonly = decide (role = .factory) := by
  unfold roleSpec matched at h
  simp only [bind_ok, pure_ok, require_ok, dictionary_ok, decide_eq_true_eq, beq_iff_eq] at h
  obtain ⟨_, -, _, -, _, -, ⟨⟩, -, _, -, label, ⟨_, -, ⟨⟩, -, rfl⟩, ⟨⟩, hnew, _, -, ⟨⟩, -, readonly, -,
    ⟨⟩, hreadonly, rfl⟩ := h
  refine ⟨hnew, (truthy_numeric hreadonly).trans ?_⟩
  by_cases hf : role = .factory
  · simp [hf]
  · simp [hf]

theorem mem_order {rs : List (Text × Json)} {names : List Json} (hiter : iterated (.obj rs) = .ok names)
    (hall : ∀ role, names.any (fun v => match v with | .str s => s == roleName role | _ => false) = true)
    (role : Role) : role ∈ (rs.map Prod.fst).filterMap roleOf? := by
  cases hiter
  have h := hall role
  rw [List.any_eq_true] at h
  obtain ⟨v, hv, hs⟩ := h
  obtain ⟨q, hq, rfl⟩ := List.mem_map.mp hv
  have hname : q.1 = roleName role := by simpa using hs
  refine List.mem_filterMap.mpr ⟨q.1, List.mem_map_of_mem hq, ?_⟩
  rw [hname]
  cases role <;> rfl

theorem validate_ok {document : Json} {p : Policy} (h : validate document = .ok p) : Valid p := by
  unfold validate at h
  simp only [bind_ok, require_ok, refuse_ok, dictionary_ok, Bool.and_eq_true] at h
  obtain ⟨_, rfl, ⟨⟩, -, _, -, _, -, _, -, _, -, names, hiter, ⟨⟩, -, ⟨⟩, ⟨-, hroles⟩, specs, rfl,
    factory, hfactory, state, hstate, data, hdata, ⟨⟩, -, tmpfs, -, h⟩ := h
  have hall : ∀ role, names.any (fun v => match v with | .str s => s == roleName role | _ => false) = true := by
    intro role
    exact List.all_eq_true.mp hroles role (by cases role <;> decide)
  have hp : p.role .factory = factory ∧ p.role .state = state ∧ p.role .data = data ∧
      p.order = (specs.map Prod.fst).filterMap roleOf? := by
    split at h
    · cases h
    · split at h
      · cases h
      · simp only [bind_ok, pure_ok] at h
        obtain ⟨_, -, _, -, _, -, _, -, _, -, _, -, _, -, _, -, _, -, _, -, _, -, rfl⟩ := h
        exact ⟨rfl, rfl, rfl, rfl⟩
  obtain ⟨hf, hs, hd, horder⟩ := hp
  obtain ⟨-, h1⟩ := roleSpec_ok hfactory
  obtain ⟨h2, h3⟩ := roleSpec_ok hstate
  obtain ⟨h4, h5⟩ := roleSpec_ok hdata
  have hsf : p.label .state ≠ p.label .factory := by
    simpa [Policy.label, hf, hs] using h2
  have hdf : p.label .data ≠ p.label .factory ∧ p.label .data ≠ p.label .state := by
    simpa [Policy.label, hf, hs, hd] using h4
  refine ⟨?_, ?_, fun role => horder ▸ mem_order hiter hall role⟩
  · intro r r' he
    cases r <;> cases r' <;> first
      | rfl
      | exact absurd he hsf
      | exact absurd he.symm hsf
      | exact absurd he hdf.1
      | exact absurd he.symm hdf.1
      | exact absurd he hdf.2
      | exact absurd he.symm hdf.2
  · intro r
    cases r with
    | factory => rw [hf, h1]
    | state => rw [hs, h3]
    | data => rw [hd, h5]

/-! ### The tree of lsblk -/

inductive Node where
  | node (name type : Text) (label fstype pkname : Option Text) (mountpoints : List (Option Text))
      (children : List Node)

namespace Node

def name : Node → Text
  | .node name .. => name

def type : Node → Text
  | .node _ type .. => type

def label : Node → Option Text
  | .node _ _ label .. => label

def fstype : Node → Option Text
  | .node _ _ _ fstype .. => fstype

def pkname : Node → Option Text
  | .node _ _ _ _ pkname .. => pkname

def mountpoints : Node → List (Option Text)
  | .node _ _ _ _ _ mountpoints _ => mountpoints

mutual

def descendants : Node → List Node
  | .node name type label fstype pkname mountpoints children =>
    .node name type label fstype pkname mountpoints children :: descendantsAll children

def descendantsAll : List Node → List Node
  | [] => []
  | n :: rest => descendants n ++ descendantsAll rest

end

/-- `any(n.get('mountpoints', []))`: null and the empty text do not count. -/
def mounted (n : Node) : Bool := n.mountpoints.any fun m => m.any fun path => !path.isEmpty

end Node

/-- A listing of lsblk. A device may appear under several parents. `named` is an assumption about lsblk, which the
program does not check: a name stands for one device, so it carries one label throughout the listing. -/
structure Inventory where
  disks : List Node := []
  named : ∀ a ∈ Node.descendantsAll disks, ∀ b ∈ Node.descendantsAll disks, a.name = b.name →
    a.label = b.label := by simp [Node.descendantsAll]

def Inventory.nodes (t : Inventory) : List Node := Node.descendantsAll t.disks

/-! ### resolve -/

/-- A dictionary from roles to devices. -/
abbrev Devices := Role → Option Text

def resolveRole (p : Policy) (nodes : List Node) (role : Role) : Except Error (Option Text) :=
  match nodes.filter fun n => n.label == some (p.label role) with
  | [] => return none
  | [n] => do
    require (n.type == text "part" && n.pkname == some p.disk)
      (text "role is on unexpected disk: " ++ roleName role)
    require (n.fstype == some (text "ext4")) (text "unexpected filesystem: " ++ roleName role)
    return some n.name
  | _ => raise (text "ambiguous label: " ++ p.label role)

def resolve (p : Policy) (t : Inventory) : Except Error Devices := do
  let found ← p.order.mapM fun role => do
    let device ← resolveRole p t.nodes role
    return (role, device)
  return fun role => (found.lookup role).join

/-- `len(devices) == len(ROLES)` -/
def Devices.complete (devices : Devices) : Bool := roles.all fun role => (devices role).isSome

/-- The device is the only node of the listing with the label of the role, and is an ext4 partition
of the disk of the policy. -/
def OnlyPartition (p : Policy) (t : Inventory) (role : Role) (device : Text) : Prop :=
  ∃ n, t.nodes.filter (fun n => n.label == some (p.label role)) = [n] ∧ n.name = device ∧
    n.type = text "part" ∧ n.pkname = some p.disk ∧ n.fstype = some (text "ext4")

theorem resolveRole_ok {p : Policy} {t : Inventory} {role : Role} {device : Text}
    (h : resolveRole p t.nodes role = .ok (some device)) : OnlyPartition p t role device := by
  unfold resolveRole at h
  split at h
  · cases h
  · rename_i n hn
    simp only [bind_ok, require_ok, pure_ok, Bool.and_eq_true, beq_iff_eq, Option.some.injEq] at h
    obtain ⟨⟨⟩, ⟨htype, hdisk⟩, ⟨⟩, hfs, rfl⟩ := h
    exact ⟨n, hn, rfl, htype, hdisk, hfs⟩
  · cases h

theorem resolve_ok {p : Policy} {t : Inventory} {devices : Devices} (h : resolve p t = .ok devices)
    {role : Role} {device : Text} (hd : devices role = some device) :
    OnlyPartition p t role device := by
  unfold resolve at h
  simp only [bind_ok, pure_ok] at h
  obtain ⟨found, hfound, rfl⟩ := h
  have hjoin : found.lookup role = some (some device) := Option.join_eq_some_iff.mp hd
  obtain ⟨l, m, rfl, -⟩ := List.lookup_eq_some_iff.mp hjoin
  obtain ⟨role', -, hr⟩ := mem_of_mapM_ok hfound (role, some device) (by simp)
  simp only [bind_ok, pure_ok, Prod.mk.injEq] at hr
  obtain ⟨d, hd, rfl, rfl⟩ := hr
  exact resolveRole_ok hd

theorem mem_of_filter_singleton {α : Type} {l : List α} {q : α → Bool} {a : α} (h : l.filter q = [a]) :
    a ∈ l ∧ q a = true := by
  have : a ∈ l.filter q := by
    rw [h]
    exact List.mem_cons_self ..
  exact List.mem_filter.mp this

/-- Two roles never resolve to one device. -/
theorem resolve_injective {p : Policy} (hp : Valid p) {t : Inventory} {devices : Devices}
    (h : resolve p t = .ok devices) {r r' : Role} {device : Text} (hr : devices r = some device)
    (hr' : devices r' = some device) : r = r' := by
  obtain ⟨n, hn, hname, -⟩ := resolve_ok h hr
  obtain ⟨n', hn', hname', -⟩ := resolve_ok h hr'
  obtain ⟨hmem, hl⟩ := mem_of_filter_singleton hn
  obtain ⟨hmem', hl'⟩ := mem_of_filter_singleton hn'
  have hlabel := t.named n hmem n' hmem' (hname.trans hname'.symm)
  rw [eq_of_beq hl, eq_of_beq hl'] at hlabel
  exact hp.distinct r r' (Option.some.inj hlabel)

end Monutchee.Storage.Boot
