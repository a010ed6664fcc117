import Mathlib.Data.List.Basic
import Mathlib.Tactic.Common

/-!
# The groups of the instrumentation

`instr_parse_config` turns `ovni.events`, or `ovni.level` where there are no
events, into the word `instr_ovni_control`, one bit for each group of
events. A string is the list of its characters.
-/

namespace Nosv

/-- `enum instr_bit`, without `INSTR_BIT_MAX` -/
inductive InstrBit where
  | basic
  | worker
  | scheduler
  | schedulerHungry
  | schedulerSubmit
  | memory
  | apiBarrierWait
  | apiCreate
  | apiDestroy
  | apiMutexLock
  | apiMutexTrylock
  | apiMutexUnlock
  | apiCondWait
  | apiCondSignal
  | apiCondBroadcast
  | apiSubmit
  | apiPause
  | apiYield
  | apiWaitfor
  | apiSchedpoint
  | apiAttach
  | task
  | kernel
  | breakdown
  deriving DecidableEq, Repr

namespace InstrBit

/-- The value of the enumerator -/
def number : InstrBit → Nat
  | basic => 0
  | worker => 1
  | scheduler => 2
  | schedulerHungry => 3
  | schedulerSubmit => 4
  | memory => 5
  | apiBarrierWait => 6
  | apiCreate => 7
  | apiDestroy => 8
  | apiMutexLock => 9
  | apiMutexTrylock => 10
  | apiMutexUnlock => 11
  | apiCondWait => 12
  | apiCondSignal => 13
  | apiCondBroadcast => 14
  | apiSubmit => 15
  | apiPause => 16
  | apiYield => 17
  | apiWaitfor => 18
  | apiSchedpoint => 19
  | apiAttach => 20
  | task => 21
  | kernel => 22
  | breakdown => 23

/-- `INSTR_FLAG_*` -/
def flag (g : InstrBit) : BitVec 64 := 1#64 <<< g.number

end InstrBit

/-- `INSTR_BIT_MAX` -/
def instrBitMax : Nat := 24

/-! ## The tables -/

def instrLevel0 : BitVec 64 := 0#64 ||| InstrBit.basic.flag

def instrLevel1 : BitVec 64 := instrLevel0 ||| InstrBit.worker.flag ||| InstrBit.task.flag

def instrLevel2 : BitVec 64 :=
  instrLevel1 ||| InstrBit.scheduler.flag ||| InstrBit.schedulerHungry.flag ||| InstrBit.schedulerSubmit.flag
    ||| InstrBit.apiAttach.flag

def instrLevel3 : BitVec 64 :=
  instrLevel2 ||| InstrBit.apiCreate.flag ||| InstrBit.apiDestroy.flag ||| InstrBit.apiSubmit.flag
    ||| InstrBit.apiPause.flag ||| InstrBit.apiYield.flag ||| InstrBit.apiWaitfor.flag
    ||| InstrBit.apiSchedpoint.flag ||| InstrBit.apiMutexLock.flag ||| InstrBit.apiMutexTrylock.flag
    ||| InstrBit.apiMutexUnlock.flag ||| InstrBit.apiBarrierWait.flag ||| InstrBit.apiCondWait.flag
    ||| InstrBit.apiCondSignal.flag ||| InstrBit.apiCondBroadcast.flag ||| InstrBit.kernel.flag
    ||| InstrBit.breakdown.flag

def instrLevel4 : BitVec 64 := instrLevel3 ||| InstrBit.memory.flag

def controlLevels : List (BitVec 64) := [instrLevel0, instrLevel1, instrLevel2, instrLevel3, instrLevel4]

/-- The initializers of `control_flags_mask` -/
def controlFlagsMaskInits : List (Nat × BitVec 64) :=
  [(InstrBit.basic.number, InstrBit.basic.flag),
   (InstrBit.worker.number, InstrBit.worker.flag),
   (InstrBit.scheduler.number, InstrBit.scheduler.flag),
   (InstrBit.schedulerHungry.number, InstrBit.schedulerHungry.flag),
   (InstrBit.schedulerSubmit.number, InstrBit.schedulerSubmit.flag),
   (InstrBit.memory.number, InstrBit.memory.flag),
   (InstrBit.apiBarrierWait.number, InstrBit.apiBarrierWait.flag),
   (InstrBit.apiCreate.number, InstrBit.apiCreate.flag),
   (InstrBit.apiDestroy.number, InstrBit.apiDestroy.flag),
   (InstrBit.apiMutexLock.number, InstrBit.apiMutexLock.flag),
   (InstrBit.apiMutexTrylock.number, InstrBit.apiMutexTrylock.flag),
   (InstrBit.apiMutexUnlock.number, InstrBit.apiMutexUnlock.flag),
   (InstrBit.apiCondWait.number, InstrBit.apiCondWait.flag),
   (InstrBit.apiCondSignal.number, InstrBit.apiCondSignal.flag),
   (InstrBit.apiCondBroadcast.number, InstrBit.apiCondBroadcast.flag),
   (InstrBit.apiSubmit.number, InstrBit.apiSubmit.flag),
   (InstrBit.apiPause.number, InstrBit.apiPause.flag),
   (InstrBit.apiYield.number, InstrBit.apiYield.flag),
   (InstrBit.apiWaitfor.number, InstrBit.apiWaitfor.flag),
   (InstrBit.apiSchedpoint.number, InstrBit.apiSchedpoint.flag),
   (InstrBit.apiAttach.number, InstrBit.apiAttach.flag),
   (InstrBit.task.number, InstrBit.task.flag),
   (InstrBit.kernel.number, InstrBit.kernel.flag),
   (instrBitMax, ~~~0#64)]

/-- The initializers of `control_flags` -/
def controlFlagsInits : List (Nat × String) :=
  [(InstrBit.basic.number, "basic"),
   (InstrBit.worker.number, "worker"),
   (InstrBit.scheduler.number, "scheduler"),
   (InstrBit.schedulerHungry.number, "scheduler_hungry"),
   (InstrBit.schedulerSubmit.number, "scheduler_submit"),
   (InstrBit.memory.number, "memory"),
   (InstrBit.apiBarrierWait.number, "api_barrier_wait"),
   (InstrBit.apiCreate.number, "api_create"),
   (InstrBit.apiDestroy.number, "api_destroy"),
   (InstrBit.apiMutexLock.number, "api_mutex_lock"),
   (InstrBit.apiMutexTrylock.number, "api_mutex_trylock"),
   (InstrBit.apiMutexUnlock.number, "api_mutex_unlock"),
   (InstrBit.apiCondWait.number, "api_cond_wait"),
   (InstrBit.apiCondSignal.number, "api_cond_signal"),
   (InstrBit.apiCondBroadcast.number, "api_cond_broadcast"),
   (InstrBit.apiSubmit.number, "api_submit"),
   (InstrBit.apiPause.number, "api_pause"),
   (InstrBit.apiYield.number, "api_yield"),
   (InstrBit.apiWaitfor.number, "api_waitfor"),
   (InstrBit.apiSchedpoint.number, "api_schedpoint"),
   (InstrBit.apiAttach.number, "api_attach"),
   (InstrBit.task.number, "task"),
   (InstrBit.kernel.number, "kernel"),
   (InstrBit.breakdown.number, "breakdown"),
   (instrBitMax, "all")]

/-- An element of an array with these initializers, if there is one for it -/
def initialized {α : Type*} (inits : List (Nat × α)) (i : Nat) : Option α :=
  (inits.find? fun init => init.1 = i).map Prod.snd

/-- An element without an initializer is zero. -/
def controlFlagsMask (i : Nat) : BitVec 64 := (initialized controlFlagsMaskInits i).getD 0#64

/-- `none` is a null pointer. -/
def controlFlags (i : Nat) : Option (List Char) := (initialized controlFlagsInits i).map String.toList

/-! ## Reading the configuration -/

/-- The loop of `instr_update_control` from index `i` on, with `n` elements to
go: the mask of the group; `none` where the assertion fails. -/
def findMask (str : List Char) : Nat → Nat → Option (BitVec 64)
  | 0, _ => some 0#64
  | n + 1, i =>
      (controlFlags i).bind fun name => if str = name then some (controlFlagsMask i) else findMask str n (i + 1)

/-- Whether the string starts with `!`, and the name of the group -/
def splitEvent : List Char → Bool × List Char
  | '!' :: str => (true, str)
  | str => (false, str)

def instrUpdateControl (control : BitVec 64) (str : List Char) : Option (BitVec 64) :=
  let (neg, str) := splitEvent str
  (findMask str (instrBitMax + 1) 0).map fun mask =>
    if mask = 0#64 then control else if neg then control &&& ~~~mask else control ||| mask

/-- The options that `instr_parse_config` reads -/
structure InstrConfig where
  ovniEvents : List (List Char)
  ovniLevel : BitVec 64
  deriving DecidableEq, Repr

/-- `instr_ovni_control` after `instr_parse_config` -/
def instrParseConfig (config : InstrConfig) : Option (BitVec 64) :=
  if 0 < config.ovniEvents.length then config.ovniEvents.foldlM instrUpdateControl 0#64
  else
    let level := config.ovniLevel.toNat
    controlLevels[if controlLevels.length ≤ level then 2 else level]?

/-- The test of `CHECK_INSTR_ENABLED` -/
def checkInstrEnabled (control : BitVec 64) (g : InstrBit) : Bool := control &&& g.flag != 0#64

/-! ## What is documented -/

/-- The groups of `nosv.toml` -/
def InstrBit.documented : InstrBit → List Char
  | basic => "basic".toList
  | worker => "worker".toList
  | scheduler => "scheduler".toList
  | schedulerSubmit => "scheduler_submit".toList
  | schedulerHungry => "scheduler_hungry".toList
  | memory => "memory".toList
  | apiAttach => "api_attach".toList
  | apiCreate => "api_create".toList
  | apiDestroy => "api_destroy".toList
  | apiSubmit => "api_submit".toList
  | apiPause => "api_pause".toList
  | apiYield => "api_yield".toList
  | apiWaitfor => "api_waitfor".toList
  | apiSchedpoint => "api_schedpoint".toList
  | apiMutexLock => "api_mutex_lock".toList
  | apiMutexTrylock => "api_mutex_trylock".toList
  | apiMutexUnlock => "api_mutex_unlock".toList
  | apiBarrierWait => "api_barrier_wait".toList
  | apiCondWait => "api_cond_wait".toList
  | apiCondSignal => "api_cond_signal".toList
  | apiCondBroadcast => "api_cond_broadcast".toList
  | task => "task".toList
  | kernel => "kernel".toList
  | breakdown => "breakdown".toList

/-- The groups in the order of `nosv.toml` -/
def InstrBit.all : List InstrBit :=
  [basic, worker, scheduler, schedulerSubmit, schedulerHungry, memory, apiAttach, apiCreate, apiDestroy, apiSubmit,
   apiPause, apiYield, apiWaitfor, apiSchedpoint, apiMutexLock, apiMutexTrylock, apiMutexUnlock, apiBarrierWait,
   apiCondWait, apiCondSignal, apiCondBroadcast, task, kernel, breakdown]

/-- The flags of a name: one for a group, every one for `all`, none for
another string. -/
def documentedMask (name : List Char) : BitVec 64 :=
  if name = "all".toList then ~~~0#64
  else ((InstrBit.all.find? fun g => g.documented = name).map InstrBit.flag).getD 0#64

def updateMask (neg : Bool) (mask control : BitVec 64) : BitVec 64 :=
  if neg then control &&& ~~~mask else control ||| mask

/-- The events one after the other, with these masks for the names -/
def foldEvents (mask : List Char → BitVec 64) (control : BitVec 64) (events : List (List Char)) : BitVec 64 :=
  events.foldl (fun control str => updateMask (splitEvent str).1 (mask (splitEvent str).2) control) control

/-- The events one after the other, from the empty set on -/
def documentedControl (events : List (List Char)) : BitVec 64 := foldEvents documentedMask 0#64 events

/-- The groups that a name stands for -/
def Names (name : List Char) (g : InstrBit) : Prop := name = "all".toList ∨ name = g.documented

instance (name : List Char) (g : InstrBit) : Decidable (Names name g) := inferInstanceAs (Decidable (_ ∨ _))

/-- The events one after the other, on the groups that are enabled -/
def documentedGroups (events : List (List Char)) (g : InstrBit) : Bool :=
  events.foldl (fun enabled str => if Names (splitEvent str).2 g then !(splitEvent str).1 else enabled) false

/-- `instr_ovni_control` is what the events make of the empty set, and
`CHECK_INSTR_ENABLED` finds the flags of the groups that they enable. -/
def FollowsEvents (config : InstrConfig) : Prop :=
  ∃ control, instrParseConfig config = some control ∧ control = documentedControl config.ovniEvents
    ∧ ∀ g, checkInstrEnabled control g = documentedGroups config.ovniEvents g

/-- Whether the last of the events with such a name adds, and does not
remove; `false` if there is none. -/
def lastAdds (p : List Char → Bool) (events : List (List Char)) : Bool :=
  ((events.reverse.find? fun str => p (splitEvent str).2).map fun str => !(splitEvent str).1).getD false

/-! ## The masks -/

variable {g h : InstrBit} {name str : List Char} {events : List (List Char)} {mask : List Char → BitVec 64}
  {control : BitVec 64} {i : Nat}

theorem number_lt (g : InstrBit) : g.number < 24 := by cases g <;> decide

theorem number_inj (heq : g.number = h.number) : g = h := by
  cases g <;> cases h <;> first | rfl | exact absurd heq (by decide)

theorem exists_number (hi : i < 24) : ∃ g : InstrBit, g.number = i := by
  have hall : ∀ j < 24, (InstrBit.all.find? fun g => g.number = j).isSome := by decide
  obtain ⟨g, hg⟩ := Option.isSome_iff_exists.mp (hall i hi)
  exact ⟨g, by simpa using List.find?_some hg⟩

theorem getLsbD_flag (hi : i < 64) : g.flag.getLsbD i = decide (i = g.number) := by
  have hlt := number_lt g
  rw [InstrBit.flag, BitVec.getLsbD_shiftLeft, BitVec.getLsbD_one]
  simp only [hi, decide_true, Bool.true_and]
  rw [← Bool.decide_and, ← decide_not, ← Bool.decide_and]
  exact decide_eq_decide.mpr (by omega)

theorem controlFlags_number (g : InstrBit) : controlFlags g.number = some g.documented := by cases g <;> rfl

theorem find_documented (g : InstrBit) : (InstrBit.all.find? fun h => h.documented = g.documented) = some g := by
  cases g <;> rfl

theorem documented_inj (heq : g.documented = h.documented) : g = h := by
  have hg := find_documented g
  rw [heq, find_documented h] at hg
  exact (Option.some.inj hg).symm

theorem documented_ne_all (g : InstrBit) : g.documented ≠ "all".toList := by cases g <;> decide

theorem documentedMask_documented (g : InstrBit) : documentedMask g.documented = g.flag := by
  rw [documentedMask, if_neg (documented_ne_all g), find_documented]
  rfl

/-- A string that is no group stands for no flag. -/
theorem documentedMask_unknown (hall : name ≠ "all".toList) (hname : ∀ g : InstrBit, name ≠ g.documented) :
    documentedMask name = 0#64 := by
  have hnone : (InstrBit.all.find? fun g => g.documented = name) = none :=
    List.find?_eq_none.mpr fun g _ => by simpa using (hname g).symm
  rw [documentedMask, if_neg hall, hnone]
  rfl

/-- The bit of a group in the mask of a name -/
theorem getLsbD_documentedMask (g : InstrBit) : (documentedMask name).getLsbD g.number = decide (Names name g) := by
  have hlt : g.number < 64 := Nat.lt_trans (number_lt g) (by decide)
  by_cases hall : name = "all".toList
  · rw [documentedMask, if_pos hall, BitVec.getLsbD_not, BitVec.getLsbD_zero]
    simp [Names, hall, hlt]
  · by_cases hname : ∃ h : InstrBit, name = h.documented
    · obtain ⟨h, rfl⟩ := hname
      rw [documentedMask_documented, getLsbD_flag hlt]
      refine decide_eq_decide.mpr ⟨fun heq => Or.inr (congrArg _ (number_inj heq).symm), fun hnames => ?_⟩
      rcases hnames with hall' | heq
      · exact absurd hall' hall
      · rw [documented_inj heq]
    · have hnone : ∀ h : InstrBit, name ≠ h.documented := fun h heq => hname ⟨h, heq⟩
      rw [documentedMask_unknown hall hnone, BitVec.getLsbD_zero]
      exact (decide_eq_false fun hnames => hnames.elim hall (hnone g)).symm

/-- The mask that the tables have for a name -/
def instrMask (name : List Char) : BitVec 64 :=
  if name = InstrBit.breakdown.documented then 0#64 else documentedMask name

theorem controlFlagsMask_number (g : InstrBit) : controlFlagsMask g.number = instrMask g.documented := by
  by_cases hg : g = .breakdown
  · subst hg
    rfl
  · rw [instrMask, if_neg fun heq => hg (documented_inj heq), documentedMask_documented]
    cases g with
    | breakdown => exact absurd rfl hg
    | _ => rfl

/-- The loop over the names from an index on -/
theorem findMask_eq (str : List Char) : ∀ {n i : Nat}, i + n = 25 →
    (∃ j, i ≤ j ∧ j < 25 ∧ controlFlags j = some str ∧ findMask str n i = some (controlFlagsMask j))
      ∨ (∀ j, i ≤ j → j < 25 → controlFlags j ≠ some str) ∧ findMask str n i = some 0#64
  | 0, i, hi => Or.inr ⟨fun j hle hlt => by omega, rfl⟩
  | n + 1, i, hi => by
      have hnames : ∀ j < 25, (controlFlags j).isSome := by decide
      obtain ⟨name, hname⟩ := Option.isSome_iff_exists.mp (hnames i (by omega))
      rw [findMask, hname, Option.bind_some]
      by_cases hstr : str = name
      · rw [if_pos hstr]
        exact Or.inl ⟨i, Nat.le_refl i, by omega, by rw [hname, hstr], rfl⟩
      · rw [if_neg hstr]
        rcases findMask_eq str (n := n) (i := i + 1) (by omega) with ⟨j, hle, hlt, hj, hfound⟩ | ⟨hnone, hzero⟩
        · exact Or.inl ⟨j, by omega, hlt, hj, hfound⟩
        · refine Or.inr ⟨fun j hle hlt heq => ?_, hzero⟩
          rcases Nat.eq_or_lt_of_le hle with rfl | hle
          · exact hstr (Option.some.inj (heq.symm.trans hname))
          · exact hnone j hle hlt heq

theorem findMask_instrMask : findMask str (instrBitMax + 1) 0 = some (instrMask str) := by
  have hall : controlFlags 24 = some "all".toList := rfl
  rcases findMask_eq str (n := 25) (i := 0) rfl with ⟨j, -, hlt, hj, hfound⟩ | ⟨hnone, hzero⟩
  · refine hfound.trans (congrArg some ?_)
    rcases Nat.eq_or_lt_of_le (Nat.le_of_lt_succ hlt) with rfl | hlt
    · obtain rfl := Option.some.inj (hall.symm.trans hj)
      rfl
    · obtain ⟨g, rfl⟩ := exists_number hlt
      obtain rfl := Option.some.inj ((controlFlags_number g).symm.trans hj)
      exact controlFlagsMask_number g
  · refine hzero.trans (congrArg some ?_)
    have hname : ∀ g : InstrBit, str ≠ g.documented := fun g heq =>
      hnone g.number (Nat.zero_le _) (Nat.lt_trans (number_lt g) (by decide)) (heq ▸ controlFlags_number g)
    have hstr : str ≠ "all".toList := fun heq => hnone 24 (Nat.zero_le _) (by decide) (heq ▸ hall)
    rw [instrMask, if_neg (hname .breakdown), documentedMask_unknown hstr hname]

/-! ## One event, and a list of them -/

theorem instrUpdateControl_eq (control : BitVec 64) (str : List Char) :
    instrUpdateControl control str = some (updateMask (splitEvent str).1 (instrMask (splitEvent str).2) control) := by
  rw [instrUpdateControl]
  dsimp only
  rw [findMask_instrMask, Option.map_some]
  congr 1
  by_cases hzero : instrMask (splitEvent str).2 = 0#64
  · -- an unknown group changes nothing
    rw [if_pos hzero, hzero, updateMask, BitVec.not_zero, BitVec.and_allOnes, BitVec.or_zero, ite_self]
  · rw [if_neg hzero, updateMask]

theorem foldlM_instrUpdateControl (control : BitVec 64) (events : List (List Char)) :
    events.foldlM instrUpdateControl control = some (foldEvents instrMask control events) := by
  induction events generalizing control with
  | nil => rfl
  | cons str events ih =>
      rw [List.foldlM_cons, instrUpdateControl_eq]
      exact ih _

theorem getLsbD_updateMask (neg : Bool) {m : BitVec 64} (hi : i < 64) :
    (updateMask neg m control).getLsbD i = if m.getLsbD i then !neg else control.getLsbD i := by
  cases neg
  · rw [updateMask, if_neg Bool.false_ne_true, BitVec.getLsbD_or]
    cases m.getLsbD i <;> simp
  · rw [updateMask, if_pos rfl, BitVec.getLsbD_and, BitVec.getLsbD_not]
    cases m.getLsbD i <;> simp [hi]

/-- The last event with such a name decides. -/
theorem foldl_lastAdds (p : List Char → Bool) (events : List (List Char)) :
    events.foldl (fun b str => if p (splitEvent str).2 then !(splitEvent str).1 else b) false = lastAdds p events := by
  have hlast : ∀ b, events.foldl (fun b str => if p (splitEvent str).2 then !(splitEvent str).1 else b) b
      = ((events.reverse.find? fun str => p (splitEvent str).2).map fun str => !(splitEvent str).1).getD b := by
    induction events with
    | nil => exact fun _ => rfl
    | cons str events ih =>
        intro b
        rw [List.foldl_cons, ih, List.reverse_cons, List.find?_append]
        cases events.reverse.find? fun str => p (splitEvent str).2 with
        | some last => rfl
        | none =>
            rw [Option.none_or]
            cases hp : p (splitEvent str).2 <;> simp [hp]
  exact hlast false

theorem getLsbD_foldEvents (hi : i < 64) (events : List (List Char)) :
    (foldEvents mask 0#64 events).getLsbD i = lastAdds (fun name => (mask name).getLsbD i) events := by
  have hbit : ∀ control, (foldEvents mask control events).getLsbD i
      = events.foldl (fun b str => if (mask (splitEvent str).2).getLsbD i then !(splitEvent str).1 else b)
          (control.getLsbD i) := by
    induction events with
    | nil => exact fun _ => rfl
    | cons str events ih =>
        intro control
        refine (ih _).trans ?_
        rw [getLsbD_updateMask _ hi]
        rfl
  rw [hbit, BitVec.getLsbD_zero]
  exact foldl_lastAdds (fun name => (mask name).getLsbD i) events

/-- `CHECK_INSTR_ENABLED` looks at the bit of its group. -/
theorem checkInstrEnabled_eq (control : BitVec 64) (g : InstrBit) :
    checkInstrEnabled control g = control.getLsbD g.number := by
  have hlt : g.number < 64 := Nat.lt_trans (number_lt g) (by decide)
  rw [checkInstrEnabled, bne]
  cases hbit : control.getLsbD g.number with
  | false =>
      have hzero : control &&& g.flag = 0#64 := by
        refine BitVec.eq_of_getLsbD_eq fun i hi => ?_
        rw [BitVec.getLsbD_and, getLsbD_flag hi, BitVec.getLsbD_zero]
        by_cases heq : i = g.number
        · rw [heq, hbit, Bool.false_and]
        · rw [decide_eq_false heq, Bool.and_false]
      rw [hzero]
      rfl
  | true =>
      have hne : control &&& g.flag ≠ 0#64 := by
        intro hzero
        have hset : (control &&& g.flag).getLsbD g.number = true := by
          rw [BitVec.getLsbD_and, hbit, getLsbD_flag hlt, decide_eq_true rfl, Bool.true_and]
        rw [hzero, BitVec.getLsbD_zero] at hset
        exact Bool.false_ne_true hset
      rw [beq_false_of_ne hne]
      rfl

/-- The masks of the tables and the documented ones differ in one bit only. -/
theorem getLsbD_instrMask (hi : i < 64) (hne : i ≠ InstrBit.breakdown.number) (name : List Char) :
    (instrMask name).getLsbD i = (documentedMask name).getLsbD i := by
  rw [instrMask]
  by_cases hname : name = InstrBit.breakdown.documented
  · rw [if_pos hname, hname, documentedMask_documented, getLsbD_flag hi, BitVec.getLsbD_zero, decide_eq_false hne]
  · rw [if_neg hname]

theorem getLsbD_instrMask_breakdown (name : List Char) :
    (instrMask name).getLsbD InstrBit.breakdown.number = decide (name = "all".toList) := by
  rw [instrMask]
  by_cases hname : name = InstrBit.breakdown.documented
  · rw [if_pos hname, hname, BitVec.getLsbD_zero]
    rfl
  · rw [if_neg hname, getLsbD_documentedMask]
    exact decide_eq_decide.mpr (or_iff_left hname)

/-! ## What the events enable -/

/-- The fold of the documented masks enables the groups whose last event
adds them, where a group is the flag that `CHECK_INSTR_ENABLED` tests. -/
theorem checkInstrEnabled_documentedControl (events : List (List Char)) (g : InstrBit) :
    checkInstrEnabled (documentedControl events) g = lastAdds (fun name => Names name g) events := by
  have hlt : g.number < 64 := Nat.lt_trans (number_lt g) (by decide)
  rw [checkInstrEnabled_eq, documentedControl, getLsbD_foldEvents hlt]
  simp only [getLsbD_documentedMask]

/-- The two folds agree if, and only if, they agree on `breakdown`. -/
theorem foldEvents_eq_iff : foldEvents instrMask 0#64 events = documentedControl events
    ↔ lastAdds (fun name => name = "all".toList) events
      = lastAdds (fun name => Names name .breakdown) events := by
  have hbreakdown : (foldEvents instrMask 0#64 events).getLsbD InstrBit.breakdown.number
      = lastAdds (fun name => name = "all".toList) events := by
    rw [getLsbD_foldEvents (by decide)]
    simp only [getLsbD_instrMask_breakdown]
  have hdocumented : (documentedControl events).getLsbD InstrBit.breakdown.number
      = lastAdds (fun name => Names name .breakdown) events := by
    rw [← checkInstrEnabled_eq, checkInstrEnabled_documentedControl]
  constructor
  · intro heq
    rw [← hbreakdown, ← hdocumented, heq]
  · intro heq
    refine BitVec.eq_of_getLsbD_eq fun i hi => ?_
    by_cases hne : i = InstrBit.breakdown.number
    · rw [hne, hbreakdown, hdocumented, heq]
    · rw [documentedControl, getLsbD_foldEvents hi, getLsbD_foldEvents hi]
      simp only [getLsbD_instrMask hi hne]

/-- Without events the level decides, and every level has the flag `basic`. -/
theorem instrParseConfig_level (level : BitVec 64) : instrParseConfig ⟨[], level⟩ ≠ some 0#64 := by
  have hbasic : InstrBit.basic.flag.getLsbD 0 = true := by decide
  have hlevels : ∀ control ∈ controlLevels, control.getLsbD 0 = true := by
    simp [controlLevels, instrLevel0, instrLevel1, instrLevel2, instrLevel3, instrLevel4, hbasic,
      -BitVec.getLsbD_eq_getElem]
  intro heq
  have hzero := hlevels _ (List.mem_of_getElem? heq)
  rw [BitVec.getLsbD_zero] at hzero
  exact Bool.false_ne_true hzero

theorem instrParseConfig_events (level : BitVec 64) (hevents : events ≠ []) :
    instrParseConfig ⟨events, level⟩ = some (foldEvents instrMask 0#64 events) := by
  rw [instrParseConfig, if_pos (List.length_pos_iff.mpr hevents)]
  exact foldlM_instrUpdateControl _ _

/-- The events are followed if, and only if, there are some, and the last
one of those about `all` adds or removes as does the last one of those about
`all` and `breakdown`. -/
theorem ovni_events_iff (config : InstrConfig) :
    FollowsEvents config ↔ config.ovniEvents ≠ []
      ∧ lastAdds (fun name => name = "all".toList) config.ovniEvents
        = lastAdds (fun name => Names name .breakdown) config.ovniEvents := by
  obtain ⟨events, level⟩ := config
  constructor
  · rintro ⟨control, hparse, hcontrol, -⟩
    dsimp only at hcontrol ⊢
    by_cases hevents : events = []
    · subst hevents hcontrol
      exact absurd hparse (instrParseConfig_level level)
    · refine ⟨hevents, foldEvents_eq_iff.mp ?_⟩
      rw [instrParseConfig_events level hevents] at hparse
      exact (Option.some.inj hparse).trans hcontrol
  · rintro ⟨hevents, hlast⟩
    have heq := foldEvents_eq_iff.mpr hlast
    refine ⟨_, instrParseConfig_events level hevents, heq, fun g => ?_⟩
    rw [heq, checkInstrEnabled_documentedControl, ← foldl_lastAdds, documentedGroups]
    simp only [decide_eq_true_eq]

/-- `breakdown` is taken for an unknown group. -/
theorem breakdown_unknown :
    instrParseConfig ⟨["breakdown".toList], 2#64⟩ = some 0#64
      ∧ documentedControl ["breakdown".toList] = InstrBit.breakdown.flag
      ∧ ¬ FollowsEvents ⟨["breakdown".toList], 2#64⟩ := by
  refine ⟨rfl, rfl, ?_⟩
  rintro ⟨control, hparse, -, hchecks⟩
  obtain rfl : 0#64 = control := Option.some.inj hparse
  have hbreakdown : false = true := hchecks .breakdown
  exact Bool.false_ne_true hbreakdown

end Nosv
