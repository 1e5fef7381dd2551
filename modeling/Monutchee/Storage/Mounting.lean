import Monutchee.Lib.Mounts
import Monutchee.Lib.Session
import Monutchee.Storage.Boot

/-!
# What prepare leaves mounted (mnc-storage:274-352)

The commands that a run of `prepare` records are replayed on a mount table. A run that returns has
mounted each role once and bound four places of the system into the state role, and the status that
it wrote says from where.
-/

namespace Monutchee.Storage.Mounting
open Monutchee.Lib
open Monutchee.Storage.Boot (mountPath roleName slashParts)

abbrev Table := Mounts Text Text

def parts (path : Text) : List Text := (slashParts path).filter fun part => !part.isEmpty && part != text "."

/-- What `mount` does with its arguments. -/
def mounting (args : List Text) (t : Table) : Table :=
  match args with
  | [flag, source, target] =>
    if flag = text "--bind" then t.bind (parts source) (parts target)
    else if flag = text "--move" then t.move (parts source) (parts target)
    else if flag = text "-o" ∧ source = text "remount,bind,ro" then t.lock (parts target)
    else t
  | [flag, _, source, target] => if flag = text "-t" then t.mount (parts target) source false else t
  | [flag, _, flag', options, source, target] =>
    if flag = text "-t" ∧ flag' = text "-o" then
      t.mount (parts target) source ((options.splitOn 44).contains (text "ro"))
    else t
  | _ => t

def mountArgs? : Boot.Event → Option (List Text)
  | .command (name :: args) true => if name = text "mount" then some args else none
  | _ => none

def mountsOf (trace : List Boot.Event) : List (List Text) := trace.filterMap mountArgs?

def replay (calls : List (List Text)) (t : Table) : Table := calls.foldl (fun t args => mounting args t) t

/-! ### What the storage preparation mounts -/

@[simp] theorem mountsOf_append (a b : List Boot.Event) : mountsOf (a ++ b) = mountsOf a ++ mountsOf b :=
  List.filterMap_append

/-- Every run that returns adds events that the predicate is about. -/
def Adds {α : Type} (m : Boot.Prog α) (Q : α → List Boot.Event → Prop) : Prop :=
  ∀ w a w', m w = (.ret a, w') → ∃ l, w'.trace = w.trace ++ l ∧ Q a l

section Adds
variable {α β : Type}

theorem Adds.mono {m : Boot.Prog α} {P Q : α → List Boot.Event → Prop} (h : Adds m P)
    (hPQ : ∀ a l, P a l → Q a l) : Adds m Q := by
  intro w a w' hm
  obtain ⟨l, hl, hp⟩ := h w a w' hm
  exact ⟨l, hl, hPQ a l hp⟩

theorem Adds.pure {a : α} {Q : α → List Boot.Event → Prop} (h : Q a []) : Adds (Pure.pure a : Boot.Prog α) Q := by
  intro w b w' hm
  injection hm with hb hw
  injection hb with hb
  exact ⟨[], by rw [← hw, List.append_nil], hb ▸ h⟩

theorem Adds.raise {e : Boot.Error} {Q : α → List Boot.Event → Prop} : Adds (Act.raise e : Boot.Prog α) Q := by
  intro w a w' hm
  simp at hm

theorem Adds.bind {m : Boot.Prog α} {f : α → Boot.Prog β} {P : α → List Boot.Event → Prop}
    {Q : β → List Boot.Event → Prop} (hm : Adds m P)
    (hf : ∀ a l, P a l → Adds (f a) fun b l' => Q b (l ++ l')) : Adds (m >>= f) Q := by
  intro w b w' h
  obtain ⟨a, w₁, h₁, h₂⟩ := Act.bind_ret h
  obtain ⟨l, hl, hp⟩ := hm w a w₁ h₁
  obtain ⟨l', hl', hq⟩ := hf a l hp w₁ b w' h₂
  exact ⟨l ++ l', by rw [hl', hl, List.append_assoc], hq⟩

theorem adds_question (events : Boot.Answer → List Boot.Event) (value : Boot.Answer → α) :
    Adds (Boot.question events value) fun v l =>
      ∃ a : Boot.Answer, (a.crash || a.fails) = false ∧ v = value a ∧ l = events a := by
  intro w v w' h
  have hall : Act.Ensures (Boot.Appends fun _ => True) (Boot.question events value) w fun v w' =>
      ∃ a, (a.crash || a.fails) = false ∧ v = value a ∧ w'.trace = w.trace ++ events a :=
    Boot.question_ensures (by simp) w
  obtain ⟨a, hquiet, hv, hw⟩ := hall.post v w' h
  exact ⟨events a, hw, a, hquiet, hv, rfl⟩

theorem adds_ask (event : Boot.Answer → Boot.Event) (value : Boot.Answer → α) :
    Adds (Boot.ask event value) fun v l => ∃ a : Boot.Answer, v = value a ∧ l = [event a] := by
  apply (adds_question _ _).mono
  intro v l h
  obtain ⟨a, hquiet, hv, hl⟩ := h
  rw [hquiet] at hl
  exact ⟨a, hv, hl⟩

theorem adds_run (args : List Text) : Adds (Boot.run args) fun _ l => l = [.command args true] := by
  apply (adds_question _ _).mono
  intro v l h
  obtain ⟨a, hquiet, -, hl⟩ := h
  rw [hl, hquiet]
  rfl

theorem adds_check (ok : Bool) (message : Text) : Adds (Boot.check ok message) fun _ l => ok = true ∧ l = [] := by
  intro w u w' h
  obtain ⟨hok, hw⟩ := Act.require_ret h
  exact ⟨[], by rw [hw, List.append_nil], hok, rfl⟩

theorem adds_lift (x : Except Boot.Error α) : Adds (Act.lift x : Boot.Prog α) fun a l => x = .ok a ∧ l = [] := by
  intro w a w' h
  obtain ⟨hx, hw⟩ := Act.lift_ret h
  exact ⟨[], by rw [hw, List.append_nil], hx, rfl⟩

/-- A run that returns has made exactly these mounts. -/
def Makes (L : List (List Text)) (m : Boot.Prog α) : Prop := Adds m fun _ l => mountsOf l = L

/-- Nothing is mounted. -/
def Mutes (m : Boot.Prog α) : Prop := Makes [] m

theorem Makes.after {L : List (List Text)} {m : Boot.Prog α} {f : α → Boot.Prog β} (hm : Mutes m)
    (hf : ∀ a, Makes L (f a)) : Makes L (m >>= f) := by
  apply Adds.bind hm
  intro a l hl
  apply (hf a).mono
  intro b l' hl'
  rw [mountsOf_append, hl, hl', List.nil_append]

theorem Makes.bind {L M : List (List Text)} {m : Boot.Prog α} {f : α → Boot.Prog β} (hm : Makes L m)
    (hf : ∀ a, Makes M (f a)) : Makes (L ++ M) (m >>= f) := by
  apply Adds.bind hm
  intro a l hl
  apply (hf a).mono
  intro b l' hl'
  rw [mountsOf_append, hl, hl']

theorem Mutes.bind {m : Boot.Prog α} {f : α → Boot.Prog β} (hm : Mutes m) (hf : ∀ a, Mutes (f a)) :
    Mutes (m >>= f) := Makes.after hm hf

theorem mutes_pure (a : α) : Mutes (Pure.pure a : Boot.Prog α) := Adds.pure rfl

theorem mutes_silent (value : Boot.Answer → α) : Mutes (Boot.question (fun _ => []) value) := by
  apply (adds_question _ _).mono
  intro v l h
  obtain ⟨a, -, -, hl⟩ := h
  rw [hl]
  rfl

theorem mutes_ask {event : Boot.Answer → Boot.Event} (h : ∀ a, mountArgs? (event a) = none)
    (value : Boot.Answer → α) : Mutes (Boot.ask event value) := by
  apply (adds_ask event value).mono
  intro v l hv
  obtain ⟨a, -, hl⟩ := hv
  rw [hl, mountsOf, List.filterMap_cons_none (h a), List.filterMap_nil]

theorem mutes_check (ok : Bool) (message : Text) : Mutes (Boot.check ok message) := by
  apply (adds_check ok message).mono
  intro u l h
  rw [h.2]
  rfl

theorem mutes_lift (x : Except Boot.Error α) : Mutes (Act.lift x : Boot.Prog α) := by
  apply (adds_lift x).mono
  intro a l h
  rw [h.2]
  rfl

theorem mutes_run {name : Text} {args : List Text} (h : name ≠ text "mount") : Mutes (Boot.run (name :: args)) := by
  apply (adds_run _).mono
  intro u l hl
  rw [hl]
  simp [mountsOf, mountArgs?, h]

theorem mutes_each {f : β → Boot.Prog Unit} (hf : ∀ b, Mutes (f b)) (bs : List β) : Mutes (Act.each f bs) := by
  induction bs with
  | nil => exact mutes_pure ()
  | cons b bs ih => exact Mutes.bind (hf b) fun _ => ih

/-- A mount that succeeds. -/
theorem makes_mount (args : List Text) : Makes [args] (Boot.run (text "mount" :: args)) := by
  apply (adds_run _).mono
  intro u l hl
  rw [hl]
  simp [mountsOf, mountArgs?]

end Adds

/-- The mount of a role, as its status says. -/
def roleArgs (str : Json → Text) (p : Boot.Policy) (role : Role) (s : Boot.RoleStatus) : List Text :=
  (Boot.mountOf str p (role, s)).2.tail

theorem filesystemCheck_mutes (p : Boot.Policy) (role : Role) (device : Text) :
    Mutes (Boot.filesystemCheck p role device) := by
  unfold Boot.filesystemCheck
  split
  · exact mutes_pure ()
  · exact Mutes.bind (mutes_ask (fun _ => rfl) _) fun _ => mutes_check _ _

/-- An event that is no mount. -/
def Still (e : Boot.Event) : Prop := mountArgs? e = none

theorem mountsOf_still {w w' : Boot.Machine} (h : Boot.Appends Still w w') :
    ∃ l, w'.trace = w.trace ++ l ∧ mountsOf l = [] := by
  obtain ⟨l, hl, hstill⟩ := h
  exact ⟨l, hl, List.filterMap_eq_nil_iff.mpr hstill⟩

theorem filesystemCheck_still (p : Boot.Policy) (role : Role) (device : Text) (w : Boot.Machine) :
    Act.Within (Boot.Appends Still) (Boot.filesystemCheck p role device) w := by
  unfold Boot.filesystemCheck
  split
  · exact Boot.appends_refl w
  · have hask : Act.Ensures (Boot.Appends Still) (Boot.ask (fun a => .fsck device a.code) (·.code)) w fun code w' =>
        ∃ a : Boot.Answer, code = a.code ∧ w'.trace = w.trace ++ [.fsck device a.code] := by
      apply Boot.ask_ensures
      intro a
      rfl
    have hcheck : ∀ (code : ℤ) (w' : Boot.Machine), Act.Ensures (Boot.Appends Still)
        (Boot.check (code == 0 || code == 1) (text "filesystem needs manual repair")) w' fun _ _ => True :=
      fun _ w' => (Boot.check_ensures w').mono fun _ _ _ => trivial
    exact (Act.Ensures.bind Boot.appends_trans hask fun code w' _ => hcheck code w').within

/-- A partition that cannot be mounted leaves no mount behind. -/
theorem mountPartition_raise {p : Boot.Policy} {role : Role} {device : Text} {w w' : Boot.Machine} {e : Boot.Error}
    (h : Boot.mountPartition p role device w = (.raise e, w')) : Boot.Appends Still w w' := by
  rcases Act.bind_raise h with ⟨_, w₁, h₁, h₂⟩ | h₁
  · have hchecked := (filesystemCheck_still p role device w).result h₁
    rcases Act.bind_raise h₂ with ⟨_, w₂, -, h₃⟩ | h₃
    · cases h₃
    · apply Boot.appends_trans _ _ _ hchecked
      exact ⟨_, Boot.run_raise h₃, by simp [Still, mountArgs?]⟩
  · exact (filesystemCheck_still p role device w).result h₁

theorem mountPartition_adds (p : Boot.Policy) (role : Role) (device : Text) :
    Adds (Boot.mountPartition p role device) fun s l =>
      s = ⟨true, device, []⟩ ∧ mountsOf l = [(Boot.partitionMount p role device).tail] := by
  apply Adds.bind (filesystemCheck_mutes p role device)
  intro _ l₁ h₁
  apply Adds.bind (makes_mount (Boot.partitionMount p role device).tail)
  intro _ l₂ h₂
  apply Adds.pure
  constructor
  · rfl
  · simp [h₁, h₂]

theorem tryPartition_adds (str : Json → Text) (p : Boot.Policy) (maintenance : Bool) (devices : Boot.Devices)
    (role : Role) :
    Adds (Boot.tryPartition p maintenance devices role) fun s l =>
      mountsOf l = if s.persistent then [roleArgs str p role s] else [] := by
  unfold Boot.tryPartition
  split
  · rename_i device hd
    intro w s w' h
    unfold Act.attempt at h
    rcases ho : Boot.mountPartition p role device w with ⟨o, w₁⟩
    rw [ho] at h
    cases o with
    | ret s₁ =>
      obtain ⟨l, hl, hs, hm⟩ := mountPartition_adds p role device w s₁ w₁ ho
      injection h with hr hw
      injection hr with hr
      rw [← hr, ← hw, hs]
      exact ⟨l, hl, hm⟩
    | raise e =>
      obtain ⟨l, hl, hm⟩ := mountsOf_still (mountPartition_raise ho)
      injection h with hr hw
      injection hr with hr
      rw [← hr, ← hw]
      exact ⟨l, hl, hm⟩
    | crash => cases h
  · exact Adds.pure rfl

theorem settleRole_adds (str : Json → Text) (p : Boot.Policy) (role : Role) (s : Boot.RoleStatus) :
    Adds (Boot.settleRole str p role s) fun _ l =>
      mountsOf l = if s.persistent then [] else [roleArgs str p role s] := by
  unfold Boot.settleRole
  by_cases hp : s.persistent = true
  · rw [if_pos hp, if_pos hp]
    split
    · exact Mutes.bind (mutes_silent _) fun _ =>
        mutes_each (fun _ => Mutes.bind (mutes_silent _) fun _ => mutes_silent _) _
    · exact mutes_pure ()
  · have hargs : roleArgs str p role s = (Boot.tmpfsMount str p role).tail := by
      simp [roleArgs, Boot.mountOf, hp]
    rw [if_neg hp, if_neg hp, hargs]
    exact makes_mount _

/-- Each role is mounted once, from its partition or as a tmpfs. -/
theorem mountRole_adds (str : Json → Text) (p : Boot.Policy) (maintenance : Bool) (devices : Boot.Devices)
    (role : Role) :
    Adds (Boot.mountRole str p maintenance devices role) fun s l => mountsOf l = [roleArgs str p role s] := by
  apply Adds.bind (tryPartition_adds str p maintenance devices role)
  intro s l₁ h₁
  apply Adds.bind (settleRole_adds str p role s)
  intro _ l₂ h₂
  apply Adds.pure
  rw [List.append_nil, mountsOf_append, h₁, h₂]
  cases s.persistent with
  | true => rfl
  | false => rfl

theorem discover_mutes (p : Boot.Policy) (tries : ℕ) (devices : Boot.Devices) :
    Mutes (Boot.discover p tries devices) := by
  induction tries generalizing devices with
  | zero => exact mutes_pure devices
  | succ tries ih =>
    apply Mutes.bind (mutes_ask (fun _ => rfl) _)
    intro listing
    apply Mutes.bind (mutes_lift _)
    intro found
    split
    · exact mutes_pure found
    · exact Mutes.bind (mutes_silent _) fun _ => ih found

theorem enterRole_mutes (role : Role) : Mutes (Boot.enterRole role) := by
  apply Mutes.bind (mutes_silent _)
  intro _
  apply Mutes.bind (mutes_ask (fun _ => rfl) _)
  intro mounted
  exact mutes_check _ _

theorem eraseData_mutes (p : Boot.Policy) (devices : Boot.Devices) (persistent : Bool) :
    Mutes (Boot.eraseData p devices persistent) := by
  unfold Boot.eraseData
  split
  · exact Adds.raise
  · apply Mutes.bind (mutes_check _ _)
    intro _
    apply Mutes.bind (mutes_ask (fun _ => rfl) _)
    intro listing
    apply Mutes.bind (mutes_check _ _)
    intro _
    apply Mutes.bind (mutes_ask (fun _ => rfl) _)
    intro names
    apply Mutes.bind (mutes_check _ _)
    intro _
    exact mutes_run (by decide)

theorem resetData_mutes (p : Boot.Policy) (devices : Boot.Devices) (persistent : Bool) :
    Mutes (Boot.resetData p devices persistent) := by
  apply Mutes.bind (mutes_ask (fun _ => rfl) _)
  intro content
  apply Mutes.bind (mutes_lift _)
  intro resetting
  split
  · exact Mutes.bind (eraseData_mutes p devices persistent) fun _ => mutes_pure true
  · exact mutes_pure false

theorem prepareReset_mutes (p : Boot.Policy) (resetting persistent : Bool) :
    Mutes (Boot.prepareReset p resetting persistent) := by
  unfold Boot.prepareReset
  split
  · apply Mutes.bind (mutes_check _ _)
    intro _
    apply mutes_each
    intro path
    apply Mutes.bind (mutes_silent _)
    intro link
    apply Mutes.bind (mutes_check _ _)
    intro _
    apply Mutes.bind (mutes_silent _)
    intro there
    split
    · exact Mutes.bind (mutes_silent _) fun _ => mutes_silent _
    · exact mutes_pure ()
  · exact mutes_pure ()

def bindArgs (source target : Text) : List Text := [text "--bind", source, target]

def lockArgs (target : Text) : List Text := [text "-o", text "remount,bind,ro", target]

def machineIdMounts : List (List Text) :=
  [bindArgs (text "/state/os/machine-id") (text "/etc/machine-id"), lockArgs (text "/etc/machine-id")]

theorem machineId_makes : Makes machineIdMounts Boot.machineId := by
  have hrest : Makes machineIdMounts (do
      let line ← Boot.question (fun _ => []) (·.line)
      Boot.check (Boot.machineIdPattern line) (text "invalid persistent machine-id")
      Boot.run [text "mount", text "--bind", text "/state/os/machine-id", text "/etc/machine-id"]
      Boot.run [text "mount", text "-o", text "remount,bind,ro", text "/etc/machine-id"]) := by
    apply Makes.after (mutes_silent _)
    intro line
    apply Makes.after (mutes_check _ _)
    intro _
    exact Makes.bind (makes_mount _) fun _ => makes_mount _
  apply Makes.after (mutes_silent _)
  intro _
  apply Makes.after (mutes_silent _)
  intro there
  cases there with
  | true => exact hrest
  | false =>
    apply Makes.after (mutes_silent _)
    intro _
    apply Makes.after (mutes_silent _)
    intro _
    apply Makes.after (mutes_silent _)
    intro _
    apply Makes.after (mutes_silent _)
    intro _
    exact Makes.after (mutes_silent _) fun _ => hrest

theorem bindLeaf_makes (leaf target : Text) :
    Makes [bindArgs (text "/state/os/" ++ leaf) target] (Boot.bindLeaf leaf target) := by
  have hrest : Makes [bindArgs (text "/state/os/" ++ leaf) target] (do
      Boot.file
      Boot.run [text "mount", text "--bind", text "/state/os/" ++ leaf, target]) :=
    Makes.after (mutes_silent _) fun _ => makes_mount _
  apply Makes.after (mutes_silent _)
  intro there
  cases there with
  | true => exact hrest
  | false =>
    apply Makes.after (mutes_silent _)
    intro _
    by_cases hv : (target == text "/var/lib") = true
    · simp only [hv, if_true]
      exact Makes.after (mutes_run (by decide)) fun _ => hrest
    · simp only [hv]
      exact hrest

/-- The binds of the system into the state role. -/
def systemMounts : List (List Text) :=
  machineIdMounts ++
    [bindArgs (text "/state/os/var-lib") (text "/var/lib"), bindArgs (text "/state/os/ssh") (text "/run/ssh"),
      bindArgs (text "/state/os/root-ssh") (text "/root/.ssh")]

theorem finish_adds (p : Boot.Policy) (maintenance resetting : Bool) (factory state data : Boot.RoleStatus) :
    Adds (Boot.finish p maintenance resetting factory state data) fun _ l =>
      .status (Boot.bootStatus maintenance resetting factory state data) ∈ l ∧ mountsOf l = systemMounts := by
  apply Adds.bind (prepareReset_mutes p resetting data.persistent)
  intro _ l₁ h₁
  apply Adds.bind machineId_makes
  intro _ l₂ h₂
  apply Adds.bind (bindLeaf_makes _ _)
  intro _ l₃ h₃
  apply Adds.bind (bindLeaf_makes _ _)
  intro _ l₄ h₄
  apply Adds.bind (bindLeaf_makes _ _)
  intro _ l₅ h₅
  apply Adds.bind (mutes_silent _)
  intro _ l₆ h₆
  have hname : Mutes (Boot.writeHostname p) := by
    unfold Boot.writeHostname
    split
    · exact mutes_silent _
    · exact Adds.raise
  apply Adds.bind hname
  intro _ l₇ h₇
  apply Adds.bind (mutes_silent _)
  intro _ l₈ h₈
  apply Adds.bind (adds_ask _ _)
  intro _ l₉ h₉
  obtain ⟨a, -, h₉⟩ := h₉
  apply (mutes_silent _).mono
  intro _ l₁₀ h₁₀
  rw [h₉]
  constructor
  · simp [Boot.bootStatus]
  · simp only [mountsOf_append, h₁, h₂, h₃, h₄, h₅, h₆, h₇, h₈, h₁₀]
    rfl

def prepareMounts (str : Json → Text) (p : Boot.Policy) (s : Boot.Status) : List (List Text) :=
  roles.map (fun role => roleArgs str p role (s.role role)) ++ systemMounts

/-- All that a preparation mounts, in its order, as the status that it writes says. -/
theorem prepare_adds (str : Json → Text) (p : Boot.Policy) :
    Adds (Boot.prepare str p) fun _ l => ∃ s, .status s ∈ l ∧ mountsOf l = prepareMounts str p s := by
  apply Adds.bind (mutes_silent _)
  intro initial l₁ h₁
  apply Adds.bind (mutes_check _ _)
  intro _ l₂ h₂
  apply Adds.bind (mutes_silent _)
  intro _ l₃ h₃
  by_cases ht : p.target.isNone = true
  · rw [if_pos ht]
    exact Adds.raise
  · rw [if_neg ht]
    apply Adds.bind (mutes_ask (fun _ => rfl) _)
    intro words l₄ h₄
    apply Adds.bind (discover_mutes p _ _)
    intro devices l₅ h₅
    apply Adds.bind (enterRole_mutes .factory)
    intro _ l₆ h₆
    apply Adds.bind (mountRole_adds str p _ devices .factory)
    intro factory l₇ h₇
    apply Adds.bind (enterRole_mutes .state)
    intro _ l₈ h₈
    apply Adds.bind (mountRole_adds str p _ devices .state)
    intro state l₉ h₉
    apply Adds.bind (enterRole_mutes .data)
    intro _ l₁₀ h₁₀
    apply Adds.bind (resetData_mutes p devices state.persistent)
    intro resetting l₁₁ h₁₁
    apply Adds.bind (mountRole_adds str p _ devices .data)
    intro data l₁₂ h₁₂
    apply (finish_adds p _ resetting factory state data).mono
    intro _ l₁₃ h₁₃
    refine ⟨Boot.bootStatus (words.contains Boot.maintenanceWord) resetting factory state data, ?_, ?_⟩
    · simp only [List.mem_append, h₁₃.1, or_true]
    · simp only [mountsOf_append, h₁, h₂, h₃, h₄, h₅, h₆, h₇, h₈, h₉, h₁₀, h₁₁, h₁₂, h₁₃.2]
      rfl

/-! ### What that makes of the mount table -/

def source (role : Role) (s : Boot.RoleStatus) : Text := if s.persistent then s.device else text "mnc-" ++ roleName role

/-- A role that can only be read. -/
def sealed (role : Role) (s : Boot.RoleStatus) : Bool :=
  match role with
  | .factory => true
  | .state => false
  | .data => !s.persistent

theorem parts_mountPath (role : Role) : parts (mountPath role) = [roleName role] := by
  cases role <;> decide

theorem partitionOptions (role : Role) :
    (((if decide (role = .factory) = true then text "ro,noload" else text "rw") ++
      text ",nosuid,nodev,noexec").splitOn 44).contains (text "ro") = decide (role = .factory) := by
  cases role <;> decide

theorem stateOptions (size : Text) :
    text "nosuid,nodev,noexec,mode=0755,size=" ++ size = [44].intercalate
      [text "nosuid", text "nodev", text "noexec", text "mode=0755", text "size=" ++ size] := by
  have hstart : text "nosuid,nodev,noexec,mode=0755,size=" = text "nosuid" ++ 44 :: (text "nodev" ++ 44 ::
      (text "noexec" ++ 44 :: (text "mode=0755" ++ 44 :: text "size="))) := by decide
  rw [hstart]
  simp [List.intercalate, List.intersperse]

theorem tmpfsOptions_ro (str : Json → Text) (p : Boot.Policy) (role : Role) (hstr : 44 ∉ str p.stateTmpfsMib) :
    ((Boot.tmpfsOptions str p role).splitOn 44).contains (text "ro") = decide (role ≠ .state) := by
  have hsealed : Boot.tmpfsOptions str p .factory =
      text "nosuid,nodev,noexec,mode=0755,size=" ++ text "1" ++ text "m" ++ text ",ro" := rfl
  have hdata : Boot.tmpfsOptions str p .data = Boot.tmpfsOptions str p .factory := rfl
  cases role with
  | factory =>
    rw [hsealed]
    decide
  | data =>
    rw [hdata, hsealed]
    decide
  | state =>
    have hfields : Boot.tmpfsOptions str p .state =
        text "nosuid,nodev,noexec,mode=0755,size=" ++ (str p.stateTmpfsMib ++ text "m") := by
      simp [Boot.tmpfsOptions]
    have hm : 44 ∉ text "m" := by decide
    have hsize : 44 ∉ text "size=" := by decide
    have hplain : 44 ∉ text "nosuid" ∧ 44 ∉ text "nodev" ∧ 44 ∉ text "noexec" ∧ 44 ∉ text "mode=0755" := by decide
    have hdistinct : text "ro" ∉ [text "nosuid", text "nodev", text "noexec", text "mode=0755"] := by decide
    have hlast : text "ro" ≠ text "size=" ++ (str p.stateTmpfsMib ++ text "m") := by
      intro h
      have hhead : some 114 = some 115 := congrArg List.head? h
      simp at hhead
    rw [hfields, stateOptions, List.splitOn_intercalate]
    · simp only [List.mem_cons, List.not_mem_nil, or_false, not_or] at hdistinct
      simp [hdistinct, hlast]
    · simp [hplain, hsize, hstr, hm]
    · simp

theorem mounting_role {str : Json → Text} {p : Boot.Policy} (hp : Boot.Valid p) (hstr : 44 ∉ str p.stateTmpfsMib)
    (role : Role) (s : Boot.RoleStatus) (t : Table) :
    mounting (roleArgs str p role s) t = t.mount [roleName role] (source role s) (sealed role s) := by
  rcases hs : s.persistent with _ | _
  · have hargs : roleArgs str p role s = [text "-t", text "tmpfs", text "-o", Boot.tmpfsOptions str p role,
        text "mnc-" ++ roleName role, mountPath role] := by
      simp [roleArgs, Boot.mountOf, hs, Boot.tmpfsMount]
    have hsealed : sealed role s = decide (role ≠ .state) := by
      cases role <;> simp [sealed, hs]
    simp only [hargs, mounting, and_self, if_true, parts_mountPath, tmpfsOptions_ro str p role hstr, source, hs,
      hsealed]
    rfl
  · have hargs : roleArgs str p role s = [text "-t", text "ext4", text "-o",
        (if (p.role role).readonly then text "ro,noload" else text "rw") ++ text ",nosuid,nodev,noexec", s.device,
        mountPath role] := by
      simp [roleArgs, Boot.mountOf, hs, Boot.partitionMount]
    have hsealed : sealed role s = decide (role = .factory) := by
      cases role <;> simp [sealed, hs]
    simp only [hargs, mounting, and_self, if_true, parts_mountPath, hp.readonly role, partitionOptions, source, hs,
      hsealed]

theorem mounting_bind (a b : Text) (t : Table) : mounting (bindArgs a b) t = t.bind (parts a) (parts b) := by
  simp [mounting, bindArgs]

theorem mounting_lock (target : Text) (t : Table) : mounting (lockArgs target) t = t.lock (parts target) := by
  have hbind : text "-o" ≠ text "--bind" := by decide
  have hmove : text "-o" ≠ text "--move" := by decide
  simp [mounting, lockArgs, hbind, hmove]

/-- The file system of the state role. -/
def stateSource (s : Boot.Status) : Text := source .state (s.role .state)

/-- A directory below /state/os. -/
def osSpot (s : Boot.Status) (leaf : Text) (readonly : Bool) : Spot Text Text :=
  ⟨stateSource s, [text "os", leaf], readonly⟩

def roleSpot (s : Boot.Status) (role : Role) : Spot Text Text :=
  ⟨source role (s.role role), [], sealed role (s.role role)⟩

/-- What a preparation leaves mounted, the latest first. -/
def prepared (s : Boot.Status) : List (Mount Text Text) :=
  [⟨[text "root", text ".ssh"], osSpot s (text "root-ssh") false⟩,
    ⟨[text "run", text "ssh"], osSpot s (text "ssh") false⟩,
    ⟨[text "var", text "lib"], osSpot s (text "var-lib") false⟩,
    ⟨[text "etc", text "machine-id"], osSpot s (text "machine-id") true⟩,
    ⟨[text "data"], roleSpot s .data⟩, ⟨[text "state"], roleSpot s .state⟩, ⟨[text "factory"], roleSpot s .factory⟩]

/-- The mounts `front` over those of the factory and the state role. -/
def above (s : Boot.Status) (t : Table) (front : List (Mount Text Text)) : Table :=
  ⟨t.base, front ++ ⟨[text "state"], roleSpot s .state⟩ :: ⟨[text "factory"], roleSpot s .factory⟩ :: t.stack⟩

/-- A bind from below /state/os, as long as nothing else is mounted there. -/
theorem mounting_os (s : Boot.Status) (t : Table) (front : List (Mount Text Text)) (path leaf target : Text)
    (hpath : parts path = [text "state", text "os", leaf]) (points : List (List Text))
    (hpoints : front.map (·.point) = points) (h : ∀ point ∈ points, ¬ point <+: [text "state", text "os", leaf]) :
    mounting (bindArgs path target) (above s t front) = above s t (⟨parts target, osSpot s leaf false⟩ :: front) := by
  have hfront : ∀ m ∈ front, ¬ m.point <+: [text "state", text "os", leaf] := by
    intro m hm
    exact h m.point (hpoints ▸ List.mem_map_of_mem hm)
  have hplace : (above s t front).place ([text "state"] ++ [text "os", leaf]) =
      (roleSpot s .state).below [text "os", leaf] := Mounts.place_found hfront
  have hplace : (above s t front).place [text "state", text "os", leaf] = osSpot s leaf false := hplace
  rw [mounting_bind, Mounts.bind, hpath, hplace]
  rfl

theorem mounting_locked {s : Boot.Status} {t : Table} {front : List (Mount Text Text)} {target : Text}
    {spot : Spot Text Text} :
    mounting (lockArgs target) (above s t (⟨parts target, spot⟩ :: front)) =
      above s t (⟨parts target, { spot with readonly := true }⟩ :: front) := by
  rw [mounting_lock]
  exact Mounts.lock_add (t := above s t front)

theorem replay_append (a b : List (List Text)) (t : Table) : replay (a ++ b) t = replay b (replay a t) :=
  List.foldl_append ..

theorem replay_cons (args : List Text) (calls : List (List Text)) (t : Table) :
    replay (args :: calls) t = replay calls (mounting args t) := rfl

theorem replay_prepared {str : Json → Text} {p : Boot.Policy} (hp : Boot.Valid p) (hstr : 44 ∉ str p.stateTmpfsMib)
    (s : Boot.Status) (t : Table) :
    replay (prepareMounts str p s) t = { t with stack := prepared s ++ t.stack } := by
  have hroles : replay (roles.map fun role => roleArgs str p role (s.role role)) t =
      above s t [⟨[text "data"], roleSpot s .data⟩] := by
    simp only [roles, List.map_cons, List.map_nil, replay_cons, mounting_role hp hstr]
    rfl
  let data : Mount Text Text := ⟨[text "data"], roleSpot s .data⟩
  let identity (readonly : Bool) : Mount Text Text :=
    ⟨[text "etc", text "machine-id"], osSpot s (text "machine-id") readonly⟩
  let lib : Mount Text Text := ⟨[text "var", text "lib"], osSpot s (text "var-lib") false⟩
  let ssh : Mount Text Text := ⟨[text "run", text "ssh"], osSpot s (text "ssh") false⟩
  have hpoints : parts (text "/etc/machine-id") = [text "etc", text "machine-id"] ∧
      parts (text "/var/lib") = [text "var", text "lib"] ∧ parts (text "/run/ssh") = [text "run", text "ssh"] ∧
      parts (text "/root/.ssh") = [text "root", text ".ssh"] := by decide
  obtain ⟨hetc, hvar, hrun, hroot⟩ := hpoints
  have hidentity := mounting_os s t [data] (text "/state/os/machine-id") (text "machine-id")
    (text "/etc/machine-id") (by decide) [[text "data"]] rfl (by decide)
  have hlocked : { osSpot s (text "machine-id") false with readonly := true } = osSpot s (text "machine-id") true := rfl
  have hlib := mounting_os s t [identity true, data] (text "/state/os/var-lib") (text "var-lib") (text "/var/lib") (by decide)
    [[text "etc", text "machine-id"], [text "data"]] rfl (by decide)
  have hssh := mounting_os s t [lib, identity true, data] (text "/state/os/ssh") (text "ssh") (text "/run/ssh") (by decide)
    [[text "var", text "lib"], [text "etc", text "machine-id"], [text "data"]] rfl (by decide)
  have hkeys := mounting_os s t [ssh, lib, identity true, data] (text "/state/os/root-ssh") (text "root-ssh")
    (text "/root/.ssh") (by decide)
    [[text "run", text "ssh"], [text "var", text "lib"], [text "etc", text "machine-id"], [text "data"]] rfl (by decide)
  unfold prepareMounts
  rw [replay_append, hroles]
  simp only [systemMounts, machineIdMounts, List.cons_append, List.nil_append, replay_cons]
  rw [hidentity, mounting_locked, hetc]
  rw [hlocked, hlib, hvar, hssh, hrun, hkeys, hroot]
  rfl

/-- Where the system finds its roles and its state. -/
structure Shows (s : Boot.Status) (t : Table) : Prop where
  role : ∀ role, t.place [roleName role] = roleSpot s role
  machineId : t.place [text "etc", text "machine-id"] = osSpot s (text "machine-id") true
  lib : t.place [text "var", text "lib"] = osSpot s (text "var-lib") false
  ssh : t.place [text "run", text "ssh"] = osSpot s (text "ssh") false
  keys : t.place [text "root", text ".ssh"] = osSpot s (text "root-ssh") false

theorem shown {base : Spot Text Text} (front : List (Mount Text Text)) {back : List (Mount Text Text)}
    {point : List Text} {spot : Spot Text Text} (points : List (List Text)) (hpoints : front.map (·.point) = points)
    (h : ∀ q ∈ points, ¬ q <+: point) : (⟨base, front ++ ⟨point, spot⟩ :: back⟩ : Table).place point = spot := by
  have hfront : ∀ m ∈ front, ¬ m.point <+: point ++ [] := by
    intro m hm
    rw [List.append_nil]
    exact h m.point (hpoints ▸ List.mem_map_of_mem hm)
  have hfound : (⟨base, front ++ ⟨point, spot⟩ :: back⟩ : Table).place (point ++ []) = spot.below [] :=
    Mounts.place_found hfront
  rwa [List.append_nil, Spot.below_nil] at hfound

theorem shows_prepared (s : Boot.Status) (base : Spot Text Text) (back : List (Mount Text Text)) :
    Shows s ⟨base, prepared s ++ back⟩ where
  role := by
    intro role
    cases role with
    | factory =>
      exact shown ((prepared s).take 6) [[text "root", text ".ssh"], [text "run", text "ssh"],
        [text "var", text "lib"], [text "etc", text "machine-id"], [text "data"], [text "state"]] rfl (by decide)
    | state =>
      exact shown ((prepared s).take 5) [[text "root", text ".ssh"], [text "run", text "ssh"],
        [text "var", text "lib"], [text "etc", text "machine-id"], [text "data"]] rfl (by decide)
    | data =>
      exact shown ((prepared s).take 4) [[text "root", text ".ssh"], [text "run", text "ssh"],
        [text "var", text "lib"], [text "etc", text "machine-id"]] rfl (by decide)
  machineId := shown ((prepared s).take 3) [[text "root", text ".ssh"], [text "run", text "ssh"],
    [text "var", text "lib"]] rfl (by decide)
  lib := shown ((prepared s).take 2) [[text "root", text ".ssh"], [text "run", text "ssh"]] rfl (by decide)
  ssh := shown ((prepared s).take 1) [[text "root", text ".ssh"]] rfl (by decide)
  keys := shown [] [] rfl (by simp)

theorem string_ok {v : Json} {s : Text} (h : Boot.string v = .ok s) : v = .str s := by
  cases v with
  | str a =>
    cases h
    rfl
  | _ => cases h

/-- What a checked policy says about the runtime root and the size of the tmpfs. -/
theorem validate_fields {document : Json} {p : Boot.Policy} (h : Boot.validate document = .ok p) :
    (∃ ps, document = .obj ps ∧
      Boot.itemOr ps (text "runtime_root") (.str (text "/run/mnc")) = .str p.runtimeRoot) ∧
      Boot.runtimeRootPattern p.runtimeRoot = true ∧ ∃ n, Boot.numeric? p.stateTmpfsMib = some n := by
  unfold Boot.validate Boot.matched at h
  simp only [bind_ok, pure_ok, Boot.require_ok, refuse_ok, Boot.dictionary_ok, Bool.and_eq_true] at h
  obtain ⟨ps, rfl, ⟨⟩, -, root, ⟨value, hvalue, ⟨⟩, hpattern, rfl⟩, _, -, _, -, _, -, names, hiter, ⟨⟩, -, ⟨⟩, -, specs,
    rfl, factory, hfactory, state, hstate, data, hdata, ⟨⟩, -, tmpfs, -, h⟩ := h
  split at h
  · cases h
  · split at h
    · cases h
    · rename_i n hn
      simp only [bind_ok, pure_ok] at h
      obtain ⟨_, -, _, -, _, -, _, -, _, -, _, -, _, -, _, -, _, -, _, -, _, -, rfl⟩ := h
      exact ⟨⟨ps, rfl, string_ok hvalue⟩, hpattern, n, hn⟩

/-- A preparation that returns shows the roles and the state where its status says, and everything else as before. -/
theorem prepare_shows {str : Json → Text} {document : Json} {p : Boot.Policy}
    (hstr : ∀ v n, Boot.numeric? v = some n → 44 ∉ str v) (hp : Boot.validate document = .ok p)
    {answers : List Boot.Answer} {u : Unit} {w : Boot.Machine}
    (h : Boot.prepare str p { answers := answers } = (.ret u, w)) (t : Table) :
    ∃ s, .status s ∈ w.trace ∧ Shows s (replay (mountsOf w.trace) t) ∧
      ∀ path, (∀ m ∈ prepared s, ¬ m.point <+: path) → (replay (mountsOf w.trace) t).place path = t.place path := by
  obtain ⟨l, hl, s, hs, hm⟩ := prepare_adds str p _ u w h
  have htrace : w.trace = l := by simpa using hl
  obtain ⟨-, -, n, hn⟩ := validate_fields hp
  have htable := replay_prepared (Boot.validate_ok hp) (hstr _ n hn) s t
  rw [htrace, hm, htable]
  refine ⟨s, hs, shows_prepared s _ _, ?_⟩
  intro path hpath
  exact Mounts.place_skip hpath

theorem prepare_shows_reset :
    ∃ w, Boot.prepare (fun _ => text "32") Boot.Sample.policy { answers := Boot.Sample.answers } = (.ret (), w) ∧
      ∃ s, .status s ∈ w.trace ∧ Shows s (replay (mountsOf w.trace) ⟨⟨text "/dev/sda4", [], true⟩, []⟩) := by
  have hvalid : Boot.validate Boot.Sample.document = .ok Boot.Sample.policy := rfl
  have hreturns : (Boot.prepare (fun _ => text "32") Boot.Sample.policy { answers := Boot.Sample.answers }).1 =
      .ret () := by
    decide
  have hplain : ∀ (v : Json) (n : ℚ), Boot.numeric? v = some n → 44 ∉ text "32" := by
    intro _ _ _
    decide
  have hrun := Act.run_eq hreturns
  obtain ⟨s, hs, hshows, -⟩ := prepare_shows hplain hvalid hrun ⟨⟨text "/dev/sda4", [], true⟩, []⟩
  exact ⟨_, hrun, s, hs, hshows⟩

end Monutchee.Storage.Mounting
