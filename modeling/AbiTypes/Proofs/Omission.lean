import AbiTypes.Proofs.Alike
import AbiTypes.Proofs.Steps
/-!
# Omission — the steps that leave no trace

A step that fails, or only asks, leaves every register and every descriptor as it was (`Session.Sound.idle`); what it
built on the way is garbage.  So the session without such steps runs inside the session with them: the same things are
in the registers of both (`Session.Matches`), and all other steps have the same replies (`Matches.reply`).
-/
namespace AbiTypes

namespace Placement

open Store

def refl {s : Store} (hs : s.Closed) : Placement where
  inner := s
  outer := s
  node := id
  list := id
  closed := hs
  node? {r n} h := by cases n <;> exact h
  items? {l cs} h := h.trans (congrArg some (List.map_id' cs).symm)
  node_inj _ _ := id
  list_inj _ _ := id

/-- A store inside an extension of what it was inside of. -/
def widen (e : Placement) {s : Store} (h : e.outer.Extends s) : Placement :=
  { e with
    outer := s
    node? := fun hn => h.node (e.node? hn)
    items? := fun hl => h.items (e.items? hl) }

theorem before_widen (e : Placement) {s : Store} (h : e.outer.Extends s) : e.Before (e.widen h) :=
  ⟨Nat.le_refl _, Nat.le_refl _, fun _ _ => rfl, fun _ _ => rfl⟩

theorem sameRegisters_refl {s : Store} (hs : s.Closed) {rs : Registers} (hrs : rs.Fit s) :
    (refl hs).SameRegisters rs rs :=
  List.forall₂_same.2 fun p hp => ⟨rfl, by
    have hfits := hrs p hp
    cases hv : p.2 <;> rw [hv] at hfits
    · exact ⟨hfits, rfl⟩
    · exact ⟨hfits.1, rfl⟩⟩

end Placement

namespace Session

open Builder Store

/-- **Two sessions whose registers hold the same things**, one in a store inside the other one's. -/
def Matches (s t : Session) : Prop :=
  ∃ e : Placement, e.inner = s.store ∧ e.outer = t.store ∧ e.SameRegisters s.registers t.registers

section Matches

variable {s t : Session}

theorem Sound.matches (hs : s.Sound) : s.Matches s :=
  ⟨.refl hs.closed, rfl, rfl, Placement.sameRegisters_refl hs.closed hs.fit⟩

/-- **Matching sessions look the same.** -/
theorem Matches.state (h : s.Matches t) : s.state = t.state := by
  obtain ⟨e, hinner, houter, hrs⟩ := h
  unfold Session.state
  rw [← hinner, ← houter]
  generalize s.registers = rs, t.registers = rs' at hrs ⊢
  induction hrs with
  | nil => rfl
  | @cons p q rs rs' hpq _ ih =>
    obtain ⟨name, v⟩ := p
    obtain ⟨name', w⟩ := q
    obtain ⟨rfl, hvw⟩ := hpq
    rw [List.filterMap_cons, List.filterMap_cons, ih]
    simp only [hvw.viewValue?]

end Matches

section Run

variable [Reader.Stack] {s t : Session}

/-- **A step leaves no trace**: it fails, or only asks. -/
def Idle (s : Session) (st : Step) : Prop := st.asks = true ∨ ∃ f, (s.step st).outcome = .error f

/-- **A step without a trace only adds to the store**, and the registers are as they were. -/
theorem Sound.idle (hs : s.Sound) {st : Step} (h : s.Idle st) :
    s.store.Extends (s.after st).store ∧ (s.after st).registers = s.registers := by
  have hdoes := st.does hs.closed hs.fit
  have hchanges : st.asks = true → ¬ st.Changes := by
    cases st <;> simp [Step.asks, Step.Changes]
  refine ⟨hdoes.keeps (h.imp hchanges id), ?_⟩
  unfold Session.after
  cases hout : (s.step st).outcome with
  | error f => rfl
  | ok p =>
    obtain hasks | ⟨f, hf⟩ := h
    · exact (hdoes.result p hout).2 hasks
    · cases hout.symm.trans hf

theorem Matches.idle (h : s.Matches t) (ht : t.Sound) {st : Step} (hidle : t.Idle st) : s.Matches (t.after st) := by
  obtain ⟨e, hinner, houter, hrs⟩ := h
  obtain ⟨hext, hregisters⟩ := ht.idle hidle
  rw [← houter] at hext
  refine ⟨e.widen hext, hinner, rfl, ?_⟩
  rw [hregisters]
  exact hrs.later (e.before_widen hext)

/-- **Matching sessions come to the same by a step, and match after it.** -/
theorem Matches.step (h : s.Matches t) (st : Step) :
    (s.step st).outcome.map Prod.fst = (t.step st).outcome.map Prod.fst ∧ (s.after st).Matches (t.after st) := by
  obtain ⟨e, hinner, houter, hrs⟩ := h
  obtain ⟨e', hbefore, hinner', houter', hout⟩ := st.alike hrs
  rw [hinner] at hinner' hout
  rw [houter] at houter' hout
  change SameOutcome _ (s.step st).outcome (t.step st).outcome at hout
  have hafter : e'.SameRegisters (s.after st).registers (t.after st).registers := by
    unfold Session.after
    generalize (s.step st).outcome = x, (t.step st).outcome = y at hout
    cases hout with
    | error f => exact hrs.later hbefore
    | ok hpq => exact hpq.2
  refine ⟨?_, e', hinner', houter', hafter⟩
  generalize (s.step st).outcome = x, (t.step st).outcome = y at hout
  cases hout with
  | error f => rfl
  | ok hpq => exact congrArg Except.ok hpq.1

theorem Matches.reply (h : s.Matches t) (st : Step) : s.reply st = t.reply st := by
  obtain ⟨hout, hafter⟩ := h.step st
  rw [Session.reply, Session.reply, hout, hafter.state]

/-! ## Runs -/

/-- The steps of a run that leave a trace, with their replies. -/
def kept (steps : List Step) (replies : List Reply) : List (Step × Reply) :=
  (steps.zip replies).filter fun p => !p.1.asks && p.2.outcome.isOk

theorem replies_cons (s : Session) (st : Step) (rest : List Step) :
    (s.run (st :: rest)).2 = s.reply st :: ((s.after st).run rest).2 := rfl

theorem idle_of_not_kept {st : Step} (h : ¬ (!st.asks && (s.reply st).outcome.isOk) = true) :
    s.Idle st := by
  rw [Bool.and_eq_true, Bool.not_eq_true', not_and_or, Bool.not_eq_false] at h
  refine h.imp id fun hok => ?_
  unfold Session.reply at hok
  cases hout : (s.step st).outcome with
  | error f => exact ⟨f, rfl⟩
  | ok p =>
    rw [hout] at hok
    exact absurd rfl hok

/-- The session without the steps that leave no trace replies the same, and matches the session with them. -/
theorem Matches.kept : ∀ (steps : List Step) {s t : Session}, s.Matches t → t.Sound →
    (s.run ((kept steps (t.run steps).2).map Prod.fst)).2 = (kept steps (t.run steps).2).map Prod.snd ∧
    (s.afterAll ((kept steps (t.run steps).2).map Prod.fst)).Matches (t.afterAll steps)
  | [], _, _, h, _ => ⟨rfl, h⟩
  | st :: rest, s, t, h, ht => by
    rw [replies_cons, Session.kept, List.zip_cons_cons, List.filter_cons]
    split
    · obtain ⟨hreplies, hmatches⟩ := (h.step st).2.kept rest (ht.after st)
      refine ⟨?_, hmatches⟩
      rw [List.map_cons, List.map_cons, replies_cons, h.reply st]
      exact congrArg _ hreplies
    · exact (h.idle ht (idle_of_not_kept ‹_›)).kept rest (ht.after st)

/-- **Failing steps and queries leave no trace.**  Without them all other steps have the same replies, and the same
things are in the registers; and each of them only adds to the store, and changes no register and nothing that a
register shows. -/
theorem run_kept (steps : List Step) :
    (empty.run ((kept steps (empty.run steps).2).map Prod.fst)).2 = (kept steps (empty.run steps).2).map Prod.snd ∧
    (empty.afterAll ((kept steps (empty.run steps).2).map Prod.fst)).Matches (empty.afterAll steps) ∧
    ∀ earlier st later, steps = earlier ++ st :: later → (empty.afterAll earlier).Idle st →
      (empty.afterAll earlier).store.Extends ((empty.afterAll earlier).after st).store ∧
      ((empty.afterAll earlier).after st).registers = (empty.afterAll earlier).registers ∧
      ((empty.afterAll earlier).after st).state = (empty.afterAll earlier).state := by
  obtain ⟨hreplies, hmatches⟩ := sound_empty.matches.kept steps sound_empty
  refine ⟨hreplies, hmatches, fun earlier st later _ hidle => ?_⟩
  have hs : (empty.afterAll earlier).Sound := Sound.afterAll earlier sound_empty
  obtain ⟨hext, hregisters⟩ := hs.idle hidle
  exact ⟨hext, hregisters, (hs.matches.idle hs hidle).state.symm⟩

end Run

/-- A tuple, and components for it of which the second cannot be built. -/
def attempt : List Step := [
  .new "t" (.tuple (.items [.named "a" (.plain .bool)])),
  .attach "t" (.items [.named "b" (.plain .bool), .named "c" (.sized .uint (.integer (-1)))])]

/-- The component that can be built, given to the tuple after the attempt. -/
def retry : Step := .attach "t" (.items [.named "b" (.plain .bool)])

/-- The documentation of a component that is the tuple itself. -/
def documented : Step := .render (.items [.named "d" (.register "t")]) 1 "T"

/-- Of an attempt that fails, documentation, and another attempt, the last one is kept. -/
theorem run_kept_retry :
    (kept (attempt ++ [documented, retry]) (empty.run (attempt ++ [documented, retry])).2).map Prod.fst =
      attempt.take 1 ++ [retry] ∧
    (empty.run (attempt.take 1 ++ [retry])).2 =
      (kept (attempt ++ [documented, retry]) (empty.run (attempt ++ [documented, retry])).2).map Prod.snd ∧
    (empty.afterAll attempt).state = (empty.afterAll (attempt.take 1)).state ∧
    (empty.afterAll (attempt ++ [documented])).state = (empty.afterAll attempt).state := by
  obtain ⟨hreplies, -, hidle⟩ := run_kept (attempt ++ [documented, retry])
  have hfailed := hidle (attempt.take 1) _ [documented, retry] rfl (.inr ⟨_, rfl⟩)
  have hasked := hidle attempt documented [retry] rfl (.inl rfl)
  refine ⟨rfl, hreplies, hfailed.2.2, ?_⟩
  rw [afterAll_append]
  exact hasked.2.2

end Session
end AbiTypes
