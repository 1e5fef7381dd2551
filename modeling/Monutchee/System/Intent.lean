import Monutchee.System.Latch

/-!
# The reset intent

Only the reset branch of bootstrap clears the intent, in one journal write at its end. Here
that is stated about the journal: whatever a call does, the intent is still there
afterwards, or the call is a bootstrap and the write that cleared it came after everything
the branch has to do first. While the intent is in the journal, requests are refused.
-/

namespace Monutchee.System
open Lib Lib.Act Relation

variable {S : Site} {c c' : Core} {s : State} {marks : List Entry} {w w' : World}

def journalIntent (c : Core) : Bool := c.journal.any (·.resetIntent)

/-- A process that can write the journal knows of the intent in it. -/
def Known (c : Core) : Prop :=
  c.alive = true → c.failed = false → journalIntent c = true → c.state.resetIntent = true

def Entry.clearsIntent : Entry → Bool
  | .journal (some old) new => old.resetIntent && !new.resetIntent
  | .journalFailed (some old) new true => old.resetIntent && !new.resetIntent
  | _ => false

theorem loose_intent (h : Loose S c s marks) : s.resetIntent = c.state.resetIntent := by
  cases h <;> rfl

theorem known_saved (h : Saved c s marks c') : Known c' := by
  intro ha hf hi
  cases h with
  | refused hfail =>
    rw [show c.failed = false from hf] at hfail
    simp at hfail
  | cut _ => simp at ha
  | ok _ => simpa [journalIntent] using hi
  | lost left _ => simp at hf

theorem known_move (hm : Move S c c') (h : Known c) : Known c' := by
  cases hm with
  | dispatch _ _ hs => exact known_saved hs
  | save _ _ hs => exact known_saved hs
  | remove p hi _ _ _ => exact fun _ _ _ => hi
  | loose _ hl =>
    intro ha hf hi
    exact (loose_intent hl).trans (h ha hf hi)
  | construct =>
    intro _ _ hi
    change (Backend.migrate S.profile _).resetIntent = true
    rw [Backend.migrate_resetIntent]
    cases hj : c.journal with
    | none => simp [journalIntent, hj] at hi
    | some d => simpa [journalIntent, hj] using hi
  | cut =>
    intro ha
    simp at ha
  | stop =>
    intro ha
    simp at ha
  | _ => exact h

theorem known_path (hp : Path S c c') (h : Known c) : Known c' :=
  path_keeps (fun _ _ => known_move) hp h

/-- Saving a state that still has the intent keeps it in the journal. -/
theorem intent_saved (h : Saved c s marks c') (hi : journalIntent c = true)
    (hs : c.failed = false → s.resetIntent = true) : journalIntent c' = true := by
  cases h with
  | refused _ => exact hi
  | cut _ => exact hi
  | ok hf => simpa [journalIntent] using hs hf
  | lost left hf =>
    cases left with
    | false => exact hi
    | true => simpa [journalIntent] using hs hf

section Path
variable (hj : ∀ p ∈ S.profile.resetPaths, inside p S.journalPath = false)
include hj

/-- One move keeps the intent in the journal, or is the write that ends a reset. -/
theorem intent_move (hm : Move S c c') (hH : Known c) (hi : journalIntent c = true) :
    journalIntent c' = true ∨
      (c.failed = false ∧ ResetDone S c.trace ∧ during Op.boots c.trace = true ∧
        ∃ e, c'.trace = e :: c.trace ∧ e.clearsIntent = true) := by
  cases hm with
  | remove p _ _ _ hp =>
    obtain ⟨r, hr, hrp⟩ := hp
    have hpj : inside p S.journalPath = false := by
      by_contra hc
      have hrj := inside_trans hrp (by simpa using hc)
      rw [hj r hr] at hrj
      simp at hrj
    left
    unfold journalIntent
    rw [hpj]
    exact hi
  | dispatch ha _ hs =>
    left
    exact intent_saved hs hi fun hf => hH ha hf hi
  | @save s marks c' ha hc hs =>
    have kept : s.resetIntent = c.state.resetIntent → journalIntent c' = true := by
      intro heq
      exact intent_saved hs hi fun hf => heq.trans (hH ha hf hi)
    cases hc with
    | job job actor requestId _ _ _ _ =>
      left
      apply intent_saved hs hi
      intro hf
      change (c.state.resetIntent || _) = true
      rw [hH ha hf hi]
      rfl
    | completeReset _ _ _ hdone hboot =>
      obtain ⟨d, hd⟩ : ∃ d, c.journal = some d := by
        cases hjc : c.journal with
        | none => simp [journalIntent, hjc] at hi
        | some d => exact ⟨d, rfl⟩
      have hdi : d.resetIntent = true := by simpa [journalIntent, hd] using hi
      cases hs with
      | refused _ => exact .inl hi
      | cut _ => exact .inl hi
      | ok hf =>
        right
        refine ⟨hf, hdone, hboot, _, rfl, ?_⟩
        rw [hd]
        change (d.resetIntent && !false) = true
        rw [hdi]
        rfl
      | lost left hf =>
        cases left with
        | false => exact .inl hi
        | true =>
          right
          refine ⟨hf, hdone, hboot, _, rfl, ?_⟩
          rw [hd]
          change (d.resetIntent && !false) = true
          rw [hdi]
          rfl
    | begin p id actor requestId t _ _ _ _ _ _ _ => exact .inl (kept rfl)
    | prepare t _ _ _ _ _ _ => exact .inl (kept rfl)
    | settle commit _ _ _ _ => exact .inl (kept rfl)
    | powerFailed _ => exact .inl (kept rfl)
    | interrupt _ _ _ _ => exact .inl (kept rfl)
    | configure config _ _ _ _ => exact .inl (kept rfl)
    | keep => exact .inl (kept rfl)
    | adopt _ _ _ => exact .inl (kept rfl)
  | _ => exact .inl hi

end Path

/-- Within a call the latch is not reset. -/
theorem failed_inner (hp : ReflTransGen (Inner S) c c') (hc : (callOf c.trace).isSome = true)
    (hf : c.failed = true) : c'.failed = true := by
  induction hp with
  | refl => exact hf
  | @tail b d hpb hm ih =>
    obtain ⟨hm, hcall⟩ := hm
    have hb : (callOf b.trace).isSome = true := by rw [inner_call hpb]; exact hc
    cases hm with
    | construct =>
      rw [← hcall] at hb
      simp [callOf] at hb
    | dispatch _ _ hs =>
      cases hs with
      | refused _ => exact ih
      | cut _ => exact ih
      | ok _ => exact ih
      | lost left _ => rfl
    | save _ _ hs =>
      cases hs with
      | refused _ => exact ih
      | cut _ => exact ih
      | ok _ => exact ih
      | lost left _ => rfl
    | _ => exact ih

/-- The write that cleared the intent, in the body of a call made after the history `t₀`:
everything the reset has to do came before it. -/
structure ClearedAfter (S : Site) (t₀ t' : List Entry) (newer : List Entry) (e : Entry)
    (body : List Entry) : Prop where
  trace : t' = newer ++ e :: (body ++ t₀)
  clears : e.clearsIntent = true
  done : ResetDone S (body ++ t₀)
  boots : during Op.boots (body ++ t₀) = true

theorem ClearedAfter.grow {t₀ t' t'' newer body : List Entry} {e : Entry}
    (h : ClearedAfter S t₀ t' newer e body) (es : List Entry) (ht : t'' = es ++ t') :
    ClearedAfter S t₀ t'' (es ++ newer) e body := by
  refine ⟨?_, h.clears, h.done, h.boots⟩
  rw [ht, h.trace, List.append_assoc]

section Calls
variable (hj : ∀ p ∈ S.profile.resetPaths, inside p S.journalPath = false)
include hj

theorem intent_inner (hp : ReflTransGen (Inner S) c c') (hc : (callOf c.trace).isSome = true)
    (hK : Known c) (hi : journalIntent c = true) :
    journalIntent c' = true ∨
      (c.failed = false ∧ during Op.boots c.trace = true ∧
        ∃ newer e body, ClearedAfter S c.trace c'.trace newer e body) := by
  induction hp with
  | refl => exact .inl hi
  | @tail b d hpb hm ih =>
    rcases ih with hib | ⟨hf, hb, newer, e, body, hcl⟩
    · rcases intent_move hj hm.1 (known_path (path_of_inner hpb) hK) hib with hid | ⟨hf, hd, hb, e, ht, he⟩
      · exact .inl hid
      · right
        obtain ⟨body, hbody⟩ : ∃ body, b.trace = body ++ c.trace := grows_path (path_of_inner hpb)
        have hcall := inner_call hpb
        refine ⟨?_, ?_, [], e, body, ⟨?_, he, ?_, ?_⟩⟩
        · by_contra hfc
          rw [failed_inner hpb hc (by simpa using hfc)] at hf
          simp at hf
        · unfold during at hb ⊢
          rw [hcall] at hb
          exact hb
        · rw [ht, hbody]
          rfl
        · rw [← hbody]
          exact hd
        · rw [← hbody]
          exact hb
    · right
      obtain ⟨es, hes⟩ := hm.1.grows
      exact ⟨hf, hb, es ++ newer, e, body, hcl.grow es hes⟩

/-- A call keeps the intent, or it is a bootstrap that has completed the reset. -/
theorem intent_perform (op : Op) (script : List Choice) (ha : w.alive = true)
    (hK : Known w.toCore) (hi : journalIntent w.toCore = true) :
    journalIntent (perform S op script w).2.toCore = true ∨
      (w.failed = false ∧ op = .bootstrap ∧ ∃ newer e body,
        ClearedAfter S (.call op w.failed :: w.trace) (perform S op script w).2.trace newer e body) := by
  have hw := (guarded_spec (S := S) op script ha).within
  have hin := intent_inner hj hw.inner (c := (entered op script w).toCore) rfl hK hi
  have hcall : ∀ w₁ : World, ∀ mark, journalIntent w₁.toCore = true ∨
      (w.failed = false ∧ during Op.boots (entered op script w).trace = true ∧
        ∃ newer e body, ClearedAfter S (entered op script w).trace w₁.trace newer e body) →
      journalIntent { w₁ with trace := mark :: w₁.trace }.toCore = true ∨
        (w.failed = false ∧ op = .bootstrap ∧ ∃ newer e body,
          ClearedAfter S (.call op w.failed :: w.trace) (mark :: w₁.trace) newer e body) := by
    rintro w₁ mark (h | ⟨hf, hb, newer, e, body, hcl⟩)
    · exact .inl h
    · right
      refine ⟨hf, ?_, [mark] ++ newer, e, body, hcl.grow [mark] rfl⟩
      have hop : op.boots = true := hb
      cases op <;> first | rfl | simp [Op.boots] at hop
  unfold perform
  rcases hg : guarded S op (entered op script w) with ⟨o, w₁⟩
  rw [hg] at hin
  cases o with
  | ret r => exact hcall w₁ (.returned op) hin
  | raise e => exact hcall w₁ (.raised op) hin
  | crash => exact hcall w₁ .cut hin

end Calls

/-! ### Requests while the intent stands -/

/-- The calls that begin with a test for other transactions. -/
def Op.requests : Op → Bool
  | .apply _ | .beginNetwork _ _ _ | .power _ _ _ | .resetDevice _ _ _ => true
  | _ => false

theorem idle_refused (hi : w.failed = true ∨ w.state.resetIntent = true) :
    ∃ e, Backend.idle w = (.raise e, w) := by
  by_cases hf : w.failed = true
  · exact ⟨_, Backend.idle_latched hf⟩
  · have hr := hi.resolve_left hf
    refine ⟨⟨.busy, ascii "another system transaction is in progress"⟩, ?_⟩
    unfold Backend.idle
    rw [gets_bind, bind_of_ret (require_of_true (by simpa using hf)), gets_bind]
    exact require_of_false (by simp [hr])

theorem request_refused {op : Op} (ho : op.requests = true)
    (hi : w.failed = true ∨ w.state.resetIntent = true) :
    ∃ e, Backend.call S op w = (.raise e, w) := by
  obtain ⟨e, he⟩ := idle_refused hi
  cases op with
  | apply config => exact ⟨e, bind_of_raise (bind_of_raise he)⟩
  | beginNetwork p actor requestId =>
    exact ⟨e, bind_of_raise (bind_of_raise (bind_of_raise he))⟩
  | power action actor requestId => exact ⟨e, bind_of_raise (bind_of_raise he)⟩
  | resetDevice confirmed actor requestId =>
    cases confirmed with
    | false => exact ⟨_, bind_of_raise (bind_of_raise rfl)⟩
    | true => exact ⟨e, bind_of_raise ((bind_of_ret rfl).trans (bind_of_raise he))⟩
  | _ => simp [Op.requests] at ho

/-- While the intent is in the journal a request raises and touches nothing. -/
theorem perform_refused {op : Op} (script : List Choice) (ho : op.requests = true)
    (ha : w.alive = true) (hK : Known w.toCore) (hi : journalIntent w.toCore = true) :
    ∃ e, (perform S op script w).1 = .raise e ∧ (perform S op script w).2.journal = w.journal := by
  have hr : w.failed = true ∨ w.state.resetIntent = true := by
    by_cases hf : w.failed = true
    · exact .inl hf
    · exact .inr (hK ha (by simpa using hf) hi)
  obtain ⟨e, he⟩ := request_refused (S := S) (w := entered op script w) ho hr
  refine ⟨e, ?_⟩
  unfold perform guarded
  rw [bind_of_raise he]
  exact ⟨rfl, rfl⟩

/-! ### A bootstrap that storage has not prepared -/

def StatusFile.prepared : StatusFile → Bool
  | .boot _ prepared => prepared
  | _ => false

def SameJournal (w w' : World) : Prop := w'.journal = w.journal

theorem effect_journal {α : Type} {op : Choice → World → Outcome Error α × World}
    (h : ∀ c w₁, w₁.status = w.status → SameJournal w₁ (op c w₁).2) :
    Within SameJournal (effect op) w := by
  unfold Within SameJournal at *
  have hd : w.draw.2.journal = w.journal ∧ w.draw.2.status = w.status := by
    unfold World.draw
    split
    · exact ⟨rfl, rfl⟩
    · exact ⟨rfl, rfl⟩
  rw [effect_apply]
  split
  · exact hd.1
  · rw [authority_journal, h _ _ hd.2, hd.1]

/-- storageStatus reports what is in the file. -/
theorem storageStatus_prepared {path : Bytes} {r : Bool × Bool}
    (h : storageStatus path w = (.ret r, w')) : r.2 = w.status.prepared := by
  unfold storageStatus at h
  rw [effect_apply] at h
  have hd : w.draw.2.status = w.status := by
    unfold World.draw
    split
    · rfl
    · rfl
  split at h
  · simp at h
  · split at h
    · simp at h
    · rw [hd] at h
      split at h
      · simp at h
      · simp at h
      · rename_i f b hs
        injection h with hr _
        injection hr with hr
        rw [← hr, hs]
        rfl

theorem bootstrapReset_unprepared (hp : S.profile.storageStatusFile ≠ [])
    (hs : w.status.prepared = false) :
    (∀ u, (Backend.bootstrapReset S w).1 ≠ .ret u) ∧ SameJournal w (Backend.bootstrapReset S w).2 := by
  have hj : Within SameJournal (storageStatus S.profile.storageStatusFile) w := by
    apply effect_journal
    intro c w₁ _
    split
    · rfl
    · split
      · rfl
      · rfl
      · rfl
  unfold Backend.bootstrapReset
  rw [if_pos (by simpa using hp), bind_apply]
  unfold Within at hj
  rcases h : storageStatus S.profile.storageStatusFile w with ⟨o, w₁⟩
  rw [h] at hj
  cases o with
  | ret r =>
    obtain ⟨f, prepared⟩ := r
    have hr : prepared = false := (storageStatus_prepared h).trans hs
    subst hr
    refine ⟨?_, hj⟩
    intro u hu
    simp [require_of_false, bind_apply] at hu
  | raise e => exact ⟨by simp, hj⟩
  | crash => exact ⟨by simp, hj⟩

/-- Without the record of mnc-storage a bootstrap does not change the journal. -/
theorem bootstrap_unprepared (script : List Choice) (hp : S.profile.storageStatusFile ≠ [])
    (hi : w.state.resetIntent = true) (hs : w.status.prepared = false) :
    (perform S .bootstrap script w).2.journal = w.journal := by
  obtain ⟨hno, hj⟩ := bootstrapReset_unprepared (w := entered .bootstrap script w) hp hs
  have hboot : (∀ u, (Backend.bootstrap S (entered .bootstrap script w)).1 ≠ .ret u) ∧
      (Backend.bootstrap S (entered .bootstrap script w)).2 =
        (Backend.bootstrapReset S (entered .bootstrap script w)).2 := by
    unfold Backend.bootstrap
    rw [gets_bind, if_pos (show (entered .bootstrap script w).state.resetIntent = true from hi)]
    exact bind_stopped hno
  have hcall := bind_stopped (f := fun _ => (pure .done : Prog Backend.Reply)) hboot.1
  have hg := bind_stopped (m := Backend.call S .bootstrap)
    (f := fun r => do checkpoint; pure r) hcall.1
  have hworld : (guarded S .bootstrap (entered .bootstrap script w)).2 =
      (Backend.bootstrapReset S (entered .bootstrap script w)).2 :=
    hg.2.trans (hcall.2.trans hboot.2)
  have hjournal : (guarded S .bootstrap (entered .bootstrap script w)).2.journal = w.journal := by
    rw [hworld]
    exact hj
  unfold perform
  rcases h : guarded S .bootstrap (entered .bootstrap script w) with ⟨o, w₁⟩
  rw [h] at hjournal
  cases o with
  | ret r => exact hjournal
  | raise e => exact hjournal
  | crash => exact hjournal

end Monutchee.System
