import Monutchee.System.Refinement

/-!
# What the checks leave alone

The guards of the calls read members, the clock, the settings file, the storage status
and the random source. Whatever a relation between two worlds keeps, a check keeps it as
soon as the relation admits what any effect brings with it: an answer is drawn, the
process may be cut off, the settings authority may write, and a reading is noted.
-/

namespace Monutchee.System
open Lib Lib.Act

/-- Entries that checks add to the history. -/
def Entry.checks : Entry → Bool
  | .hash _ | .status _ _ | .reading _ => true
  | _ => false

/-- A relation that holds across everything but assignments and calls of the platform. -/
structure Lenient (R : World → World → Prop) : Prop where
  refl : ∀ w, R w w
  trans : ∀ a b c, R a b → R b c → R a c
  draw : ∀ (w : World) (cs : List Choice), R w { w with script := cs }
  stop : ∀ w : World, R w { w with alive := false }
  write : ∀ (w : World) (v : Bytes), R w (w.write v)
  log : ∀ (w : World) (e : Entry), e.checks = true → R w (w.log e)

variable {R : World → World → Prop} {S : Site} {α : Type}

namespace Lenient
variable (hR : Lenient R)
include hR

theorem drawn (w : World) : R w w.draw.2 := by
  unfold World.draw
  split
  · exact hR.refl w
  · rename_i c cs _
    exact hR.draw w cs

theorem authority (vs : List Bytes) (w : World) : R w (w.authority vs) := by
  induction vs generalizing w with
  | nil => exact hR.refl w
  | cons v vs ih => exact hR.trans _ _ _ (hR.write w v) (ih (w.write v))

theorem effect {op : Choice → World → Outcome Error α × World} (h : ∀ c w, R w (op c w).2)
    (w : World) : Within R (effect op) w := by
  have hd := hR.drawn w
  unfold Within
  rw [effect_apply]
  split
  · exact hR.trans _ _ _ hd (hR.stop _)
  · exact hR.trans _ _ _ hd (hR.trans _ _ _ (h _ _) (hR.authority _ _))

theorem platformCall (entry : Bool → Entry) (h : ∀ ok w, R w (w.log (entry ok))) (w : World) :
    Within R (platformCall entry) w := by
  apply hR.effect
  intro c w
  split
  · exact h false w
  · exact h true w

/-- An effect that may raise and otherwise returns an answer of the environment. -/
theorem answer (e : Choice → Error) (f : Choice → α) (w : World) :
    Within R (System.effect fun c w => if c.fails then (.raise (e c), w) else (.ret (f c), w)) w := by
  apply hR.effect
  intro c w
  rw [answer_quiet]
  exact hR.refl w

theorem randomId (w : World) : Within R randomId w := hR.answer _ _ w

theorem validateConfiguration (config : Configuration) (w : World) :
    Within R (platformValidateConfiguration config) w := hR.answer _ _ w

theorem readClock (w : World) : Within R readClock w :=
  hR.effect (fun _ w => hR.log w _ rfl) w

theorem fileHash (w : World) : Within R (fileHash S) w := by
  apply hR.effect
  intro c w
  split
  · exact hR.refl w
  · split
    · exact hR.refl w
    · exact hR.log w _ rfl

theorem storageStatus (path : Bytes) (w : World) : Within R (storageStatus path) w := by
  apply hR.effect
  intro c w
  split
  · exact hR.refl w
  · cases w.status with
    | missing => exact hR.refl w
    | invalid => exact hR.refl w
    | boot factoryReset resetPrepared => exact hR.log w _ rfl

theorem idle (w : World) : Within R Backend.idle w := by
  unfold Within
  rw [Backend.idle_unchanged]
  exact hR.refl w

theorem checkHostname (config : Configuration) (w : World) :
    Within R (Backend.checkHostname S config) w := by
  unfold Backend.checkHostname
  split
  · exact Within.require hR.refl _ _ w
  · exact hR.refl w

theorem checkProposal (p : NetworkProposal) (w : World) :
    Within R (Backend.checkProposal S p) w := by
  unfold Backend.checkProposal
  apply Within.bind hR.trans (hR.idle w)
  intro _ w₁ _
  apply Within.bind hR.trans (Within.gets hR.refl _ w₁)
  intro s w₂ _
  apply Within.bind hR.trans (Within.lift hR.refl _ w₂)
  intro _ w₃ _
  apply Within.bind hR.trans (hR.checkHostname _ w₃)
  intro _ w₄ _
  apply Within.bind hR.trans (hR.validateConfiguration _ w₄)
  intro _ w₅ _
  apply Within.bind hR.trans (Within.require hR.refl _ _ w₅)
  intro _ w₆ _
  apply Within.bind hR.trans (hR.fileHash w₆)
  intro h w₇ _
  exact Within.require hR.refl _ _ w₇

theorem checkId (id : Bytes) (w : World) : Within R (Backend.checkId id) w := by
  apply Within.bind hR.trans (Within.gets hR.refl _ w)
  intro s w₁ _
  exact Within.require hR.refl _ _ w₁

theorem checkFinish (commit : Bool) (w : World) : Within R (Backend.checkFinish S commit) w := by
  unfold Backend.checkFinish
  apply Within.bind hR.trans (Within.gets hR.refl _ w)
  intro s w₁ _
  split
  · apply Within.bind hR.trans (hR.fileHash w₁)
    intro h w₂ _
    split
    · exact Within.require hR.refl _ _ w₂
    · exact Within.require hR.refl _ _ w₂
  · exact Within.require hR.refl _ _ w₁

end Lenient

/-! ### Entries added -/

/-- The history grew by entries that satisfy `p`. -/
def Adds (p : Entry → Bool) (w w' : World) : Prop :=
  ∃ es, w'.trace = es ++ w.trace ∧ ∀ e ∈ es, p e = true

variable {p : Entry → Bool} {w w' : World}

theorem Adds.refl (w : World) : Adds p w w := ⟨[], rfl, by simp⟩

theorem Adds.trans (a b c : World) (h : Adds p a b) (h' : Adds p b c) : Adds p a c := by
  obtain ⟨es, ht, hes⟩ := h
  obtain ⟨fs, hu, hfs⟩ := h'
  refine ⟨fs ++ es, by rw [hu, ht, List.append_assoc], ?_⟩
  intro e he
  rcases List.mem_append.mp he with he | he
  · exact hfs e he
  · exact hes e he

theorem Adds.log (w : World) {e : Entry} (he : p e = true) : Adds p w (w.log e) :=
  ⟨[e], rfl, by simpa using he⟩

/-- Checks add what they read, and the authority its writes. -/
theorem adds_lenient (hc : ∀ e, e.checks = true → p e = true)
    (hw : ∀ v d, p (.written v d) = true) : Lenient (Adds p) where
  refl := Adds.refl
  trans := Adds.trans
  draw _ _ := ⟨[], rfl, by simp⟩
  stop _ := ⟨[], rfl, by simp⟩
  write w v := ⟨[.written v w.journal], rfl, by simpa using hw v w.journal⟩
  log w e he := Adds.log w (hc e he)

/-! ### How a call ends -/

theorem perform_raise {op : Op} {script : List Choice} {e : Error}
    (h : perform S op script w = (.raise e, w')) :
    ∃ w₁, Backend.call S op (entered op script w) = (.raise e, w₁) ∧ w' = w₁.log (.raised op) := by
  unfold perform at h
  rcases hg : guarded S op (entered op script w) with ⟨o, w₁⟩
  rw [hg] at h
  cases o with
  | ret r => simp at h
  | raise e' =>
    injection h with he hw
    injection he with he
    subst he
    refine ⟨w₁, ?_, hw.symm⟩
    rcases bind_raise hg with ⟨r, w₂, _, h₂⟩ | hcall
    · rcases bind_raise h₂ with ⟨u, w₃, _, h₃⟩ | hcheck
      · simp at h₃
      · exact absurd hcheck checkpoint_no_raise
    · exact hcall
  | crash => simp at h

theorem perform_ret {op : Op} {script : List Choice} {r : Backend.Reply}
    (h : perform S op script w = (.ret r, w')) :
    ∃ w₁ w₂, Backend.call S op (entered op script w) = (.ret r, w₁) ∧
      checkpoint w₁ = (.ret (), w₂) ∧ w' = w₂.log (.returned op) := by
  unfold perform at h
  rcases hg : guarded S op (entered op script w) with ⟨o, w₂⟩
  rw [hg] at h
  cases o with
  | ret r' =>
    injection h with hr hw
    injection hr with hr
    subst hr
    obtain ⟨r'', w₁, hcall, hg⟩ := bind_ret hg
    obtain ⟨_, w₃, hcheck, hg⟩ := bind_ret hg
    injection hg with hr' hw'
    injection hr' with hr'
    subst hr' hw'
    exact ⟨w₁, w₃, hcall, hcheck, hw.symm⟩
  | raise e => simp at h
  | crash => simp at h

end Monutchee.System
