import Nosv.ThreadAffinity

/-!
# Every run of the affinity support

The worker of a thread is in the hash tables exactly while the thread is
registered, under its own ids; then the register of the thread is in the
worker, and otherwise in the kernel. A step moves the register from one to
the other or writes it where it is.

The registration copies the mask of the kernel into a `cpu_set_t`. Nothing
is lost there, since the initialization has found room for it.
-/

namespace Nosv

namespace AffinityState

open Run HashTable

variable {env : AffinityEnv} {s s' : AffinityState} {t u w caller : Nat} {handle : AffinityHandle}

/-! ## The invariant -/

structure Inv (env : AffinityEnv) (s : AffinityState) : Prop where
  tids : ∀ t ∈ s.live, ∀ u ∈ s.live, s.tid t = s.tid u → t = u
  pthreads : ∀ t ∈ s.live, ∀ u ∈ s.live, s.pthread t = s.pthread u → t = u
  present : ∀ t ∈ s.live, s.tid t ≠ 0 ∧ s.pthread t ≠ 0
  absent : ∀ t, t ∉ s.live → s.pthread t = 0 ∧ s.pc t = .outside
  outside : ∀ t, s.pc t = .outside → s.current t = none
  worker : ∀ t, s.pc t ≠ .outside → ∃ w, s.current t = some w ∧ w < s.next
    ∧ (s.worker w).tid = s.tid t ∧ (s.worker w).kthread = s.pthread t
  distinctTid : s.htTid.Distinct
  distinctPthread : s.htPthread.Distinct
  htTid : ∀ k w, s.htTid.search env.hash k = some w ↔
    ∃ t, (s.pc t).registered ∧ s.current t = some w ∧ s.tid t = k
  htPthread : ∀ k w, s.htPthread.search env.hash k = some w ↔
    ∃ t, (s.pc t).registered ∧ s.current t = some w ∧ s.pthread t = k
  kernel : ∀ t ∈ s.live, (s.pc t).registered = false → (s.kernel t).Same (s.last t)
  fake : ∀ t w, (s.pc t).registered → s.current t = some w →
    (s.worker w).originalAffinity.Same (s.last t)
  stored : ∀ t, (s.kernel t).length ≤ env.sys.size

theorem inv_start : start.Inv env where
  tids _ ht := absurd ht List.not_mem_nil
  pthreads _ ht := absurd ht List.not_mem_nil
  present _ ht := absurd ht List.not_mem_nil
  absent _ _ := ⟨rfl, rfl⟩
  outside _ _ := rfl
  worker _ h := absurd rfl h
  distinctTid := distinct_empty
  distinctPthread := distinct_empty
  htTid _ _ := ⟨nofun, fun ⟨_, h, _⟩ => by cases h⟩
  htPthread _ _ := ⟨nofun, fun ⟨_, h, _⟩ => by cases h⟩
  kernel _ ht := absurd ht List.not_mem_nil
  fake _ _ h := by cases h
  stored _ := Nat.zero_le _

/-- What the kernel is given has the size of its masks. -/
theorem stored_setKernel {mask : Mask} (h : ∀ u, (s.kernel u).length ≤ env.sys.size) (u : Nat) :
    ((s.setKernel env t mask).kernel u).length ≤ env.sys.size := by
  simp only [setKernel, Function.update_apply]
  split
  · exact Nat.le_of_eq Mask.length_resize
  · exact h u

theorem not_outside_of_registered (h : (s.pc t).registered) : s.pc t ≠ .outside := by
  intro hpc
  rw [hpc] at h
  cases h

theorem Inv.live_of_pc (hinv : s.Inv env) (h : s.pc t ≠ .outside) : t ∈ s.live := by
  by_contra hlive
  exact h (hinv.absent t hlive).2

/-- Two threads do not share a worker. -/
theorem Inv.current_inj (hinv : s.Inv env) (ht : s.current t = some w) (hu : s.current u = some w) :
    t = u := by
  have hne {v : Nat} (hv : s.current v = some w) : s.pc v ≠ .outside := fun hpc => by
    rw [hinv.outside v hpc] at hv
    cases hv
  obtain ⟨w₁, h₁, -, htid, -⟩ := hinv.worker t (hne ht)
  obtain ⟨w₂, h₂, -, htid', -⟩ := hinv.worker u (hne hu)
  cases ht.symm.trans h₁
  cases hu.symm.trans h₂
  exact hinv.tids t (hinv.live_of_pc (hne ht)) u (hinv.live_of_pc (hne hu)) (htid.symm.trans htid')

/-! ## Looking a thread up -/

theorem find_live {f : Nat → Nat} (hinj : ∀ t ∈ s.live, ∀ u ∈ s.live, f t = f u → t = u)
    (ht : t ∈ s.live) : s.live.find? (fun u => f u = f t) = some t := by
  have hsome : (s.live.find? fun u => f u = f t).isSome :=
    List.find?_isSome.mpr ⟨t, ht, decide_eq_true rfl⟩
  obtain ⟨u, hu⟩ := Option.isSome_iff_exists.mp hsome
  have hkey : f u = f t := by simpa using List.find?_some hu
  rw [hu, hinj u (List.mem_of_find?_eq_some hu) t ht hkey]

theorem target_live (h : s.target caller handle = some t) : t ∈ s.live := by
  cases handle with
  | tid pid =>
      rw [target] at h
      split at h
      · obtain ⟨hlive, heq⟩ := Option.ite_none_right_eq_some.mp h
        cases heq
        exact hlive
      · exact List.mem_of_find?_eq_some h
  | pthread thread => exact List.mem_of_find?_eq_some h

/-- The worker of a thread that runs code of the user. -/
theorem Inv.current_of_user (hinv : s.Inv env) (h : (s.pc t).user) :
    s.current t = if (s.pc t).registered then s.current t else none := by
  cases hpc : s.pc t <;> rw [hpc] at h <;> try cases h
  · exact hinv.outside t hpc
  · rfl

theorem Inv.live_of_registered (hinv : s.Inv env) (h : (s.pc t).registered) : t ∈ s.live :=
  hinv.live_of_pc (not_outside_of_registered h)

theorem Inv.search_tid (hinv : s.Inv env) (ht : t ∈ s.live) :
    s.htTid.search env.hash (s.tid t) = if (s.pc t).registered then s.current t else none := by
  split
  next hreg =>
    obtain ⟨w, hw, -⟩ := hinv.worker t (not_outside_of_registered hreg)
    rw [hw]
    exact (hinv.htTid _ w).mpr ⟨t, hreg, hw, rfl⟩
  next hreg =>
    refine Option.eq_none_iff_forall_ne_some.mpr fun w hw => ?_
    obtain ⟨u, hu, -, htid⟩ := (hinv.htTid _ w).mp hw
    rw [hinv.tids u (hinv.live_of_registered hu) t ht htid] at hu
    exact hreg hu

theorem Inv.search_pthread (hinv : s.Inv env) (ht : t ∈ s.live) :
    s.htPthread.search env.hash (s.pthread t) = if (s.pc t).registered then s.current t else none := by
  split
  next hreg =>
    obtain ⟨w, hw, -⟩ := hinv.worker t (not_outside_of_registered hreg)
    rw [hw]
    exact (hinv.htPthread _ w).mpr ⟨t, hreg, hw, rfl⟩
  next hreg =>
    refine Option.eq_none_iff_forall_ne_some.mpr fun w hw => ?_
    obtain ⟨u, hu, -, hpthread⟩ := (hinv.htPthread _ w).mp hw
    rw [hinv.pthreads u (hinv.live_of_registered hu) t ht hpthread] at hu
    exact hreg hu

/-- The tables lead to the worker of a thread while it is registered. -/
theorem Inv.findWorker (hinv : s.Inv env) (h : s.CanName caller handle t) :
    s.findWorker env caller handle = if (s.pc t).registered then s.current t else none := by
  obtain ⟨htarget, huser⟩ := h
  have hlive := target_live htarget
  cases handle with
  | tid pid =>
      rw [target] at htarget
      by_cases hpid : pid = 0
      · rw [if_pos hpid] at htarget
        obtain ⟨-, heq⟩ := Option.ite_none_right_eq_some.mp htarget
        cases heq
        rw [AffinityState.findWorker, if_neg (not_not.mpr hpid)]
        exact hinv.current_of_user (huser rfl)
      · rw [if_neg hpid] at htarget
        have htid : s.tid t = pid := by simpa using List.find?_some htarget
        rw [AffinityState.findWorker, if_pos hpid, ← htid]
        exact hinv.search_tid hlive
  | pthread thread =>
      have hthread : s.pthread t = thread := by simpa using List.find?_some htarget
      rw [AffinityState.findWorker]
      by_cases hself : s.pthread caller = thread
      · -- a thread that is not there does not have the id of one that is
        have hcaller : caller ∈ s.live := by
          by_contra hno
          exact (hinv.present t hlive).2 (by rw [hthread, ← hself, (hinv.absent caller hno).1])
        obtain rfl := hinv.pthreads caller hcaller t hlive (hself.trans hthread.symm)
        rw [if_neg (not_not.mpr hself)]
        exact hinv.current_of_user (huser rfl)
      · rw [if_pos hself, ← hthread]
        exact hinv.search_pthread hlive

/-- A thread that is not there is not in the tables. -/
theorem Inv.findWorker_none (hinv : s.Inv env) (hcaller : caller ∈ s.live)
    (h : s.target caller handle = none) : s.findWorker env caller handle = none := by
  cases handle with
  | tid pid =>
      rw [target] at h
      by_cases hpid : pid = 0
      · rw [if_pos hpid, if_pos hcaller] at h
        cases h
      · rw [if_neg hpid, List.find?_eq_none] at h
        rw [AffinityState.findWorker, if_pos hpid]
        refine Option.eq_none_iff_forall_ne_some.mpr fun w hw => ?_
        obtain ⟨u, hu, -, htid⟩ := (hinv.htTid _ w).mp hw
        exact h u (hinv.live_of_registered hu) (decide_eq_true htid)
  | pthread thread =>
      rw [target, List.find?_eq_none] at h
      rw [AffinityState.findWorker, if_pos fun hself => h caller hcaller (decide_eq_true hself)]
      refine Option.eq_none_iff_forall_ne_some.mpr fun w hw => ?_
      obtain ⟨u, hu, -, hthread⟩ := (hinv.htPthread _ w).mp hw
      exact h u (hinv.live_of_registered hu) (decide_eq_true hthread)

/-- Every call reads the register. -/
theorem Inv.registers (hinv : s.Inv env) : s.Registers env := by
  intro caller handle t g h
  have hfind := hinv.findWorker h
  rw [getaffinity, hfind]
  by_cases hreg : (s.pc t).registered
  · obtain ⟨w, hw, -⟩ := hinv.worker t (not_outside_of_registered hreg)
    rw [if_pos hreg, hw, if_pos (Or.inl hreg)]
    simp only [workerGetaffinity, Mask.cpuCopyS_eq, (hinv.fake t w hreg hw).resize_eq g]
  · rw [if_neg hreg, h.1]
    simp only [Option.bind_some, AffinityKernel.read,
      (hinv.kernel t (target_live h.1) (by simpa using hreg)).resize_eq g]
    exact if_congr (or_iff_right hreg).symm rfl rfl

/-! ## Steps that leave the tables alone -/

/-- The threads, their workers and the tables are the same. -/
structure SameThreads (s s' : AffinityState) : Prop where
  live : s'.live = s.live
  tid : s'.tid = s.tid
  pthread : s'.pthread = s.pthread
  current : s'.current = s.current
  next : s'.next = s.next
  htTid : s'.htTid = s.htTid
  htPthread : s'.htPthread = s.htPthread
  pc : ∀ u, (s'.pc u).registered = (s.pc u).registered ∧ (s'.pc u = .outside ↔ s.pc u = .outside)
  worker : ∀ w, (s'.worker w).tid = (s.worker w).tid ∧ (s'.worker w).kthread = (s.worker w).kthread

/-- A step may write masks where they agree with the registers. -/
theorem Inv.values (hinv : s.Inv env) (hsame : s.SameThreads s')
    (hkernel : ∀ t ∈ s.live, (s.pc t).registered = false → (s'.kernel t).Same (s'.last t))
    (hfake : ∀ t w, (s.pc t).registered → s.current t = some w →
      (s'.worker w).originalAffinity.Same (s'.last t))
    (hstored : ∀ t, (s'.kernel t).length ≤ env.sys.size) : s'.Inv env := by
  obtain ⟨hlive, htid, hpthread, hcurrent, hnext, htTid, htPthread, hpc, hworker⟩ := hsame
  refine ⟨?_, ?_, ?_, fun t ht => ?_, fun t ht => ?_, fun t ht => ?_, ?_, ?_, fun k w => ?_, fun k w => ?_,
    fun t ht hreg => ?_, fun t w hreg hw => ?_, hstored⟩
  · rw [hlive, htid]
    exact hinv.tids
  · rw [hlive, hpthread]
    exact hinv.pthreads
  · rw [hlive, htid, hpthread]
    exact hinv.present
  · rw [hlive] at ht
    rw [hpthread]
    exact ⟨(hinv.absent t ht).1, (hpc t).2.mpr (hinv.absent t ht).2⟩
  · rw [hcurrent]
    exact hinv.outside t ((hpc t).2.mp ht)
  · obtain ⟨w, hw, hlt, h₁, h₂⟩ := hinv.worker t fun h => ht ((hpc t).2.mpr h)
    rw [hcurrent, hnext, htid, hpthread]
    exact ⟨w, hw, hlt, (hworker w).1.trans h₁, (hworker w).2.trans h₂⟩
  · rw [htTid]
    exact hinv.distinctTid
  · rw [htPthread]
    exact hinv.distinctPthread
  · rw [htTid, hinv.htTid, hcurrent, htid]
    exact exists_congr fun t => by rw [(hpc t).1]
  · rw [htPthread, hinv.htPthread, hcurrent, hpthread]
    exact exists_congr fun t => by rw [(hpc t).1]
  · rw [hlive] at ht
    rw [(hpc t).1] at hreg
    exact hkernel t ht hreg
  · rw [(hpc t).1] at hreg
    rw [hcurrent] at hw
    exact hfake t w hreg hw

theorem setPc_pc {pc : AffinityPc} : (s.setPc t pc).pc u = if u = t then pc else s.pc u :=
  Function.update_apply ..

theorem setPc_same {pc : AffinityPc} (hreg : pc.registered = (s.pc t).registered) (hpc : pc ≠ .outside)
    (hout : s.pc t ≠ .outside) (u : Nat) : ((s.setPc t pc).pc u).registered = (s.pc u).registered
      ∧ ((s.setPc t pc).pc u = .outside ↔ s.pc u = .outside) := by
  rw [setPc_pc]
  split
  next heq => exact ⟨by rw [hreg, heq], by rw [heq]; exact iff_of_false hpc hout⟩
  next => exact ⟨rfl, Iff.rfl⟩

theorem Inv.block (hinv : s.Inv env) (hpc : s.pc t = .submitting ∨ s.pc t = .attached) :
    (s.setPc t .blocked).Inv env := by
  have hreg : (s.pc t).registered := by rcases hpc with h | h <;> rw [h] <;> rfl
  refine hinv.values ⟨rfl, rfl, rfl, rfl, rfl, rfl, rfl, setPc_same hreg.symm nofun
    (not_outside_of_registered hreg), fun _ => ⟨rfl, rfl⟩⟩ hinv.kernel hinv.fake hinv.stored

/-- A worker that is woken is registered: the kernel does not have its
register. -/
theorem Inv.wake {cpu : Nat} (hinv : s.Inv env) (hpc : s.pc t = .blocked) (hw : s.current t = some w) :
    ((s.wakeInternal env w cpu).setPc t .attached).Inv env := by
  have hreg : (s.pc t).registered := by rw [hpc]; rfl
  obtain ⟨w', hw', -, htid, -⟩ := hinv.worker t (not_outside_of_registered hreg)
  cases hw.symm.trans hw'
  have hfind := find_live hinv.tids (hinv.live_of_registered hreg)
  have hbound : ∃ kernel, (∀ u, u ≠ t → kernel u = s.kernel u) ∧ (∀ u, (kernel u).length ≤ env.sys.size) ∧
      s.wakeInternal env w cpu = { s with
        kernel := kernel, worker := Function.update s.worker w { s.worker w with cpu := some cpu } } := by
    unfold wakeInternal
    rw [htid, hfind]
    by_cases hcpu : (s.worker w).cpu ≠ some cpu
    · simp only [if_pos hcpu]
      exact ⟨_, fun u hu => Function.update_of_ne hu .., stored_setKernel hinv.stored, rfl⟩
    · simp only [if_neg hcpu]
      exact ⟨_, fun _ _ => rfl, hinv.stored, rfl⟩
  obtain ⟨kernel, hkeep, hstored, heq⟩ := hbound
  rw [heq]
  have hsame (v : Nat) : (Function.update s.worker w { s.worker w with cpu := some cpu } v).tid
      = (s.worker v).tid ∧ (Function.update s.worker w { s.worker w with cpu := some cpu } v).kthread
      = (s.worker v).kthread ∧ (Function.update s.worker w { s.worker w with cpu := some cpu }
      v).originalAffinity = (s.worker v).originalAffinity := by
    rw [Function.update_apply]
    split
    next hv => exact hv ▸ ⟨rfl, rfl, rfl⟩
    next => exact ⟨rfl, rfl, rfl⟩
  refine hinv.values ⟨rfl, rfl, rfl, rfl, rfl, rfl, rfl, setPc_same hreg.symm nofun
    (not_outside_of_registered hreg), fun v => ⟨(hsame v).1, (hsame v).2.1⟩⟩ (fun u hu hno => ?_)
    (fun u v hu hv => ?_) hstored
  · have hne : u ≠ t := fun h => by rw [h, hreg] at hno; cases hno
    show (kernel u).Same (s.last u)
    rw [hkeep u hne]
    exact hinv.kernel u hu hno
  · show (Function.update s.worker w _ v).originalAffinity.Same (s.last u)
    rw [(hsame v).2.2]
    exact hinv.fake u v hu hv

theorem workerSetaffinity_same (worker : AffinityWorker) (mask : Mask) :
    (workerSetaffinity worker mask).originalAffinity.Same mask := by
  unfold workerSetaffinity
  split
  · exact Mask.same_append_replicate _
  · exact fun _ => rfl

/-- A call writes the register of the thread that it names. -/
theorem Inv.set {mask : Mask} (hinv : s.Inv env) (hname : s.CanName caller handle t)
    (hfits : s.findWorker env caller handle = none → mask.Fits env.sys.size) :
    Inv env { s.setaffinity env caller handle mask with last := Function.update s.last t mask } := by
  have hlive := target_live hname.1
  rw [hinv.findWorker hname] at hfits
  rw [setaffinity, hinv.findWorker hname]
  by_cases hreg : (s.pc t).registered
  · obtain ⟨w, hw, -⟩ := hinv.worker t (not_outside_of_registered hreg)
    rw [if_pos hreg, hw]
    refine hinv.values ⟨rfl, rfl, rfl, rfl, rfl, rfl, rfl, fun _ => ⟨rfl, Iff.rfl⟩, fun v => ?_⟩
      (fun u hu hno => ?_) (fun u v hu hv => ?_) hinv.stored
    · simp only [setWorker, Function.update_apply]
      split
      next hv => unfold workerSetaffinity; split <;> rw [hv] <;> exact ⟨rfl, rfl⟩
      next => exact ⟨rfl, rfl⟩
    · have hne : u ≠ t := fun h => by rw [h, hreg] at hno; cases hno
      simp only [setWorker, Function.update_of_ne hne]
      exact hinv.kernel u hu hno
    · by_cases hut : u = t
      · subst hut
        cases hw.symm.trans hv
        simp only [setWorker, Function.update_self]
        exact workerSetaffinity_same _ _
      · have hvw : v ≠ w := fun h => hut (hinv.current_inj hv (h ▸ hw))
        simp only [setWorker, Function.update_of_ne hut, Function.update_of_ne hvw]
        exact hinv.fake u v hu hv
  · rw [if_neg hreg, hname.1]
    refine hinv.values ⟨rfl, rfl, rfl, rfl, rfl, rfl, rfl, fun _ => ⟨rfl, Iff.rfl⟩, fun _ => ⟨rfl, rfl⟩⟩
      (fun u hu hno => ?_) (fun u v hu hv => ?_) (stored_setKernel hinv.stored)
    · by_cases hut : u = t
      · subst hut
        simp only [setKernel, Function.update_self]
        exact (hfits (if_neg hreg)).same_resize
      · simp only [setKernel, Function.update_of_ne hut]
        exact hinv.kernel u hu hno
    · have hut : u ≠ t := fun h => hreg (h ▸ hu)
      simp only [setKernel, Function.update_of_ne hut]
      exact hinv.fake u v hu hv

/-! ## Threads that come and go -/

/-- An id that nobody has keeps the ids apart. -/
theorem inj_cons {live : List Nat} {f : Nat → Nat} {id : Nat}
    (hinj : ∀ u ∈ live, ∀ v ∈ live, f u = f v → u = v) (hnew : t ∉ live) (hid : ∀ u ∈ live, f u ≠ id) :
    ∀ u ∈ t :: live, ∀ v ∈ t :: live, Function.update f t id u = Function.update f t id v → u = v := by
  have hne {u : Nat} (hu : u ∈ live) : u ≠ t := fun h => hnew (h ▸ hu)
  intro u hu v hv heq
  rcases List.mem_cons.mp hu with hu | hu <;> rcases List.mem_cons.mp hv with hv | hv
  · rw [hu, hv]
  · rw [hu, Function.update_self, Function.update_of_ne (hne hv)] at heq
    exact absurd heq.symm (hid v hv)
  · rw [hv, Function.update_self, Function.update_of_ne (hne hu)] at heq
    exact absurd heq (hid u hu)
  · rw [Function.update_of_ne (hne hu), Function.update_of_ne (hne hv)] at heq
    exact hinj u hu v hv heq

theorem Inv.spawn {tid pthread : Nat} {mask : Mask} (hinv : s.Inv env) (hnew : t ∉ s.live)
    (htid : tid ≠ 0) (hpthread : pthread ≠ 0)
    (hids : ∀ u ∈ s.live, s.tid u ≠ tid ∧ s.pthread u ≠ pthread) :
    Inv env { s.setKernel env t mask with
      live := t :: s.live
      tid := Function.update s.tid t tid
      pthread := Function.update s.pthread t pthread
      last := Function.update s.last t (env.sys.store mask) } := by
  have hne {u : Nat} (hu : u ∈ s.live) : u ≠ t := fun h => hnew (h ▸ hu)
  have hout := (hinv.absent t hnew).2
  have hreg {u : Nat} (hu : (s.pc u).registered) : u ≠ t := fun h => by
    rw [h, hout] at hu
    cases hu
  refine ⟨?_, ?_, ?_, fun u hu => ?_, hinv.outside, fun u hu => ?_, hinv.distinctTid, hinv.distinctPthread,
    fun k w => ?_, fun k w => ?_, fun u hu hno => ?_, fun u w hu hw => ?_, stored_setKernel hinv.stored⟩
  · exact inj_cons hinv.tids hnew fun u hu => (hids u hu).1
  · exact inj_cons hinv.pthreads hnew fun u hu => (hids u hu).2
  · intro u hu
    rcases List.mem_cons.mp hu with rfl | hu
    · simp only [Function.update_self]
      exact ⟨htid, hpthread⟩
    · simp only [Function.update_of_ne (hne hu)]
      exact hinv.present u hu
  · obtain ⟨hut, hu⟩ := not_or.mp (fun h => hu (List.mem_cons.mpr h))
    simp only [Function.update_of_ne hut]
    exact hinv.absent u hu
  · obtain ⟨w, hw, hlt, h₁, h₂⟩ := hinv.worker u hu
    have hut : u ≠ t := hne (hinv.live_of_pc hu)
    simp only [Function.update_of_ne hut]
    exact ⟨w, hw, hlt, h₁, h₂⟩
  · refine (hinv.htTid k w).trans (exists_congr fun u => and_congr_right fun hu => ?_)
    simp only [Function.update_of_ne (hreg hu)]
    rfl
  · refine (hinv.htPthread k w).trans (exists_congr fun u => and_congr_right fun hu => ?_)
    simp only [Function.update_of_ne (hreg hu)]
    rfl
  · rcases List.mem_cons.mp hu with rfl | hu
    · simp only [setKernel, Function.update_self]
      exact fun _ => rfl
    · simp only [setKernel, Function.update_of_ne (hne hu)]
      exact hinv.kernel u hu hno
  · simp only [Function.update_of_ne (hreg hu)]
    exact hinv.fake u w hu hw

theorem Inv.exit (hinv : s.Inv env) (hlive : t ∈ s.live) (hpc : s.pc t = .outside) :
    Inv env { s with
      live := s.live.filter (· ≠ t)
      tid := Function.update s.tid t 0
      pthread := Function.update s.pthread t 0 } := by
  have hmem {u : Nat} : u ∈ s.live.filter (· ≠ t) ↔ u ∈ s.live ∧ u ≠ t := by
    simp [List.mem_filter]
  have hreg {u : Nat} (hu : (s.pc u).registered) : u ≠ t := fun h => by
    rw [h, hpc] at hu
    cases hu
  refine ⟨?_, ?_, ?_, fun u hu => ?_, hinv.outside, fun u hu => ?_, hinv.distinctTid, hinv.distinctPthread,
    fun k w => ?_, fun k w => ?_, fun u hu hno => hinv.kernel u (hmem.mp hu).1 hno, hinv.fake, hinv.stored⟩
  · intro u hu v hv heq
    simp only [Function.update_of_ne (hmem.mp hu).2, Function.update_of_ne (hmem.mp hv).2] at heq
    exact hinv.tids u (hmem.mp hu).1 v (hmem.mp hv).1 heq
  · intro u hu v hv heq
    simp only [Function.update_of_ne (hmem.mp hu).2, Function.update_of_ne (hmem.mp hv).2] at heq
    exact hinv.pthreads u (hmem.mp hu).1 v (hmem.mp hv).1 heq
  · intro u hu
    simp only [Function.update_of_ne (hmem.mp hu).2]
    exact hinv.present u (hmem.mp hu).1
  · by_cases hut : u = t
    · subst hut
      exact ⟨Function.update_self .., hpc⟩
    · simp only [Function.update_of_ne hut]
      exact hinv.absent u fun h => hu (hmem.mpr ⟨h, hut⟩)
  · have hut : u ≠ t := fun h => hu (h ▸ hpc)
    simp only [Function.update_of_ne hut]
    exact hinv.worker u hu
  · refine (hinv.htTid k w).trans (exists_congr fun u => and_congr_right fun hu => ?_)
    simp only [Function.update_of_ne (hreg hu)]
  · refine (hinv.htPthread k w).trans (exists_congr fun u => and_congr_right fun hu => ?_)
    simp only [Function.update_of_ne (hreg hu)]

/-! ## Attaching and detaching -/

theorem setPc_registered {pc : AffinityPc} (hreg : pc.registered = (s.pc t).registered) (u : Nat) :
    ((s.setPc t pc).pc u).registered = (s.pc u).registered := by
  rw [setPc_pc]
  split
  next heq => rw [hreg, heq]
  next => rfl

theorem Inv.current_of_registered (hinv : s.Inv env) (h : (s.pc t).registered) :
    ∃ w, s.current t = some w ∧ w < s.next ∧ (s.worker w).tid = s.tid t
      ∧ (s.worker w).kthread = s.pthread t :=
  hinv.worker t (not_outside_of_registered h)

/-- A thread that gets a worker, before it is registered. -/
theorem Inv.create (hinv : s.Inv env) (hlive : t ∈ s.live) (hpc : s.pc t = .outside) :
    ((s.createExternal t).setPc t .creating).Inv env := by
  have hreg : ∀ u, (((s.createExternal t).setPc t .creating).pc u).registered = (s.pc u).registered :=
    setPc_registered (by show false = (s.pc t).registered; rw [hpc]; rfl)
  have hne {u : Nat} (hu : (s.pc u).registered) : u ≠ t := fun h => by
    rw [h, hpc] at hu
    cases hu
  have hold {w : Nat} (hlt : w < s.next) :
      ((s.createExternal t).setPc t .creating).worker w = s.worker w :=
    Function.update_of_ne (Nat.ne_of_lt hlt) ..
  have hcurrent {u : Nat} (hut : u ≠ t) :
      ((s.createExternal t).setPc t .creating).current u = s.current u := Function.update_of_ne hut ..
  refine ⟨hinv.tids, hinv.pthreads, hinv.present, fun u hu => ?_, fun u hu => ?_, fun u hu => ?_,
    hinv.distinctTid, hinv.distinctPthread, fun k w => ?_, fun k w => ?_, fun u hu hno => ?_,
    fun u w hu hw => ?_, hinv.stored⟩
  · rw [setPc_pc, if_neg fun h : u = t => hu (h ▸ hlive)]
    exact hinv.absent u hu
  · rw [setPc_pc] at hu
    split at hu
    next => cases hu
    next hut =>
      rw [hcurrent hut]
      exact hinv.outside u hu
  · rw [setPc_pc] at hu
    by_cases hut : u = t
    · subst hut
      refine ⟨s.next, Function.update_self .., Nat.lt_succ_self _, ?_⟩
      simp only [setPc, createExternal, setWorker, Function.update_self, and_self]
    · rw [if_neg hut] at hu
      obtain ⟨w, hw, hlt, h₁, h₂⟩ := hinv.worker u hu
      rw [hcurrent hut]
      exact ⟨w, hw, Nat.lt_succ_of_lt hlt, by rw [hold hlt]; exact h₁, by rw [hold hlt]; exact h₂⟩
  · refine (hinv.htTid k w).trans (exists_congr fun u => ?_)
    rw [hreg]
    exact and_congr_right fun hu => by rw [hcurrent (hne hu)]; rfl
  · refine (hinv.htPthread k w).trans (exists_congr fun u => ?_)
    rw [hreg]
    exact and_congr_right fun hu => by rw [hcurrent (hne hu)]; rfl
  · rw [hreg] at hno
    exact hinv.kernel u hu hno
  · rw [hreg] at hu
    rw [hcurrent (hne hu)] at hw
    obtain ⟨w', hw', hlt, -⟩ := hinv.current_of_registered hu
    cases hw.symm.trans hw'
    rw [hold hlt]
    exact hinv.fake u w hu hw

/-- A thread without a registration gives its worker up. -/
theorem Inv.release (hinv : s.Inv env) (hreg : (s.pc t).registered = false) :
    Inv env { s.setPc t .outside with current := Function.update s.current t none } := by
  have hsame : ∀ u, ((s.setPc t .outside).pc u).registered = (s.pc u).registered :=
    setPc_registered hreg.symm
  have hne {u : Nat} (hu : (s.pc u).registered) : u ≠ t := fun h => by
    rw [h, hreg] at hu
    cases hu
  refine ⟨hinv.tids, hinv.pthreads, hinv.present, fun u hu => ?_, fun u hu => ?_, fun u hu => ?_,
    hinv.distinctTid, hinv.distinctPthread, fun k w => ?_, fun k w => ?_, fun u hu hno => ?_,
    fun u w hu hw => ?_, hinv.stored⟩
  · show s.pthread u = 0 ∧ (s.setPc t .outside).pc u = .outside
    rw [setPc_pc]
    refine ⟨(hinv.absent u hu).1, ?_⟩
    split
    · rfl
    · exact (hinv.absent u hu).2
  · show Function.update s.current t none u = none
    rw [Function.update_apply]
    split
    next => rfl
    next hut =>
      have hu' : (s.setPc t .outside).pc u = .outside := hu
      rw [setPc_pc, if_neg hut] at hu'
      exact hinv.outside u hu'
  · have hu' : (s.setPc t .outside).pc u ≠ .outside := hu
    rw [setPc_pc] at hu'
    have hut : u ≠ t := fun h => hu' (if_pos h)
    rw [if_neg hut] at hu'
    simp only [Function.update_of_ne hut]
    exact hinv.worker u hu'
  · refine (hinv.htTid k w).trans (exists_congr fun u => ?_)
    simp only [hsame]
    exact and_congr_right fun hu => by rw [Function.update_of_ne (hne hu)]; rfl
  · refine (hinv.htPthread k w).trans (exists_congr fun u => ?_)
    simp only [hsame]
    exact and_congr_right fun hu => by rw [Function.update_of_ne (hne hu)]; rfl
  · simp only [hsame] at hno
    exact hinv.kernel u hu hno
  · simp only [hsame] at hu
    simp only [Function.update_of_ne (hne hu)] at hw
    exact hinv.fake u w hu hw

/-- A table with an entry for each registered thread gets one for `t`. -/
theorem search_insert_iff {ht : HashTable Nat Nat Nat} {id : Nat → Nat} {pc' : Nat → AffinityPc}
    (hht : ∀ k w, ht.search env.hash k = some w ↔
      ∃ u, (s.pc u).registered ∧ s.current u = some w ∧ id u = k)
    (hno : ht.search env.hash (id t) = none) (hw : s.current t = some w)
    (hpc' : ∀ u, (pc' u).registered = true ↔ u = t ∨ (s.pc u).registered) (k v : Nat) :
    (ht.insert env.hash (id t) w).search env.hash k = some v ↔
      ∃ u, (pc' u).registered ∧ s.current u = some v ∧ id u = k := by
  rw [search_insert]
  constructor
  · intro h
    split at h
    next hk =>
      cases h
      exact ⟨t, (hpc' t).mpr (Or.inl rfl), hw, hk.symm⟩
    next =>
      obtain ⟨u, hu, hrest⟩ := (hht k v).mp h
      exact ⟨u, (hpc' u).mpr (Or.inr hu), hrest⟩
  · rintro ⟨u, hu, hv, rfl⟩
    rcases (hpc' u).mp hu with rfl | hu
    · rw [if_pos rfl]
      exact hw.symm.trans hv
    · have hfound := (hht _ v).mpr ⟨u, hu, hv, rfl⟩
      rw [if_neg fun h => by rw [h, hno] at hfound; cases hfound]
      exact hfound

/-- A table with an entry for each registered thread loses the one of `t`. -/
theorem search_remove_iff {ht ht' : HashTable Nat Nat Nat} {id : Nat → Nat} {pc' : Nat → AffinityPc}
    (hht : ∀ k w, ht.search env.hash k = some w ↔
      ∃ u, (s.pc u).registered ∧ s.current u = some w ∧ id u = k)
    (hid : ∀ u, (s.pc u).registered → id u = id t → u = t) (hdistinct : ht.Distinct)
    (hremove : ht.remove env.hash (id t) = some ht')
    (hpc' : ∀ u, (pc' u).registered = true ↔ u ≠ t ∧ (s.pc u).registered) (k v : Nat) :
    ht'.search env.hash k = some v ↔ ∃ u, (pc' u).registered ∧ s.current u = some v ∧ id u = k := by
  rw [search_remove hdistinct hremove]
  constructor
  · intro h
    obtain ⟨hk, h⟩ := Option.ite_none_left_eq_some.mp h
    obtain ⟨u, hu, hv, hid'⟩ := (hht k v).mp h
    exact ⟨u, (hpc' u).mpr ⟨fun h => hk (by rw [← hid', h]), hu⟩, hv, hid'⟩
  · rintro ⟨u, hu, hv, rfl⟩
    obtain ⟨hut, hu⟩ := (hpc' u).mp hu
    rw [if_neg fun h => hut (hid u hu h)]
    exact (hht _ v).mpr ⟨u, hu, hv, rfl⟩

/-- The register goes from the kernel to the worker. -/
theorem Inv.register (hinv : s.Inv env) (hpc : s.pc t = .creating) (hw : s.current t = some w)
    (haccepts : env.sys.accepts originalAffinitySize = true) :
    ((s.registerWorker env t w).setPc t .submitting).Inv env := by
  have hout : s.pc t ≠ .outside := by rw [hpc]; nofun
  have hunreg : (s.pc t).registered = false := by rw [hpc]; rfl
  have hlive := hinv.live_of_pc hout
  obtain ⟨w', hw', hlt, htid, hpthread⟩ := hinv.worker t hout
  cases hw.symm.trans hw'
  have hreg (u : Nat) : (((s.registerWorker env t w).setPc t .submitting).pc u).registered = true ↔
      u = t ∨ (s.pc u).registered := by
    rw [setPc_pc]
    split
    next hut => exact iff_of_true rfl (Or.inl hut)
    next hut => exact (or_iff_right hut).symm
  have hnotid := hinv.search_tid hlive
  have hnopthread := hinv.search_pthread hlive
  rw [hunreg] at hnotid hnopthread
  have hworker (v : Nat) : ((((s.registerWorker env t w).setPc t .submitting).worker v).tid
      = (s.worker v).tid) ∧ (((s.registerWorker env t w).setPc t .submitting).worker v).kthread
      = (s.worker v).kthread := by
    simp only [setPc, registerWorker, setWorker, Function.update_apply]
    split
    next hv => exact hv ▸ ⟨rfl, rfl⟩
    next => exact ⟨rfl, rfl⟩
  refine ⟨hinv.tids, hinv.pthreads, hinv.present, fun u hu => ?_, fun u hu => ?_, fun u hu => ?_,
    ?_, ?_, fun k v => ?_, fun k v => ?_, fun u hu hno => ?_, fun u v hu hv => ?_, hinv.stored⟩
  · rw [setPc_pc, if_neg fun h : u = t => hu (h ▸ hlive)]
    exact hinv.absent u hu
  · rw [setPc_pc] at hu
    split at hu
    next => cases hu
    next => exact hinv.outside u hu
  · have hu' : s.pc u ≠ .outside := by
      rw [setPc_pc] at hu
      split at hu
      next hut => rw [hut]; exact hout
      next => exact hu
    obtain ⟨v, hv, hlt, h₁, h₂⟩ := hinv.worker u hu'
    exact ⟨v, hv, hlt, (hworker v).1.trans h₁, (hworker v).2.trans h₂⟩
  · show (s.htTid.insert env.hash (s.worker w).tid w).Distinct
    rw [htid]
    exact hinv.distinctTid.insert hnotid
  · show (s.htPthread.insert env.hash (s.worker w).kthread w).Distinct
    rw [hpthread]
    exact hinv.distinctPthread.insert hnopthread
  · show (s.htTid.insert env.hash (s.worker w).tid w).search env.hash k = some v ↔ _
    rw [htid]
    exact search_insert_iff hinv.htTid hnotid hw hreg k v
  · show (s.htPthread.insert env.hash (s.worker w).kthread w).search env.hash k = some v ↔ _
    rw [hpthread]
    exact search_insert_iff hinv.htPthread hnopthread hw hreg k v
  · have hno' : ¬ (u = t ∨ (s.pc u).registered) := fun h => by
      rw [(hreg u).mpr h] at hno
      cases hno
    exact hinv.kernel u hu (by simpa using (not_or.mp hno').2)
  · show (Function.update s.worker w _ v).originalAffinity.Same (s.last u)
    rcases (hreg u).mp hu with rfl | hu
    · cases hw.symm.trans hv
      rw [Function.update_self, AffinityKernel.read, if_pos haccepts, Option.getD_some]
      intro i
      have hfits := Mask.fits_of_length_le (Nat.le_trans (hinv.stored u) (env.sys.whole _ haccepts))
      rw [hfits.same_resize i]
      exact hinv.kernel u hlive hunreg i
    · have hvw : v ≠ w := fun h => by
        rw [hinv.current_inj hv (h ▸ hw), hunreg] at hu
        cases hu
      rw [Function.update_of_ne hvw]
      exact hinv.fake u v hu hv

/-- The register goes from the worker to the kernel. -/
theorem Inv.unregister (hinv : s.Inv env) (hpc : s.pc t = .attached) (hw : s.current t = some w)
    (hfits : (s.worker w).originalAffinity.Fits env.sys.size)
    (hstep : s.unregisterWorker env t w = some s') : (s'.setPc t .leaving).Inv env := by
  have hreg : (s.pc t).registered := by rw [hpc]; rfl
  have hlive := hinv.live_of_registered hreg
  obtain ⟨w', hw', hlt, htid, hpthread⟩ := hinv.current_of_registered hreg
  cases hw.symm.trans hw'
  rw [unregisterWorker, htid, hpthread] at hstep
  split at hstep
  next htTid htPthread hremove hremove' =>
    cases hstep
    have hreg' (u : Nat) : ((Function.update s.pc t AffinityPc.leaving u).registered = true) ↔
        u ≠ t ∧ (s.pc u).registered := by
      rw [Function.update_apply]
      split
      next hut => exact iff_of_false nofun fun h => h.1 hut
      next hut => exact (and_iff_right hut).symm
    refine ⟨hinv.tids, hinv.pthreads, hinv.present, fun u hu => ?_, fun u hu => ?_, fun u hu => ?_,
      hinv.distinctTid.remove hremove, hinv.distinctPthread.remove hremove', fun k v => ?_,
      fun k v => ?_, fun u hu hno => ?_, fun u v hu hv => ?_, stored_setKernel hinv.stored⟩
    · rw [setPc_pc, if_neg fun h : u = t => hu (h ▸ hlive)]
      exact hinv.absent u hu
    · rw [setPc_pc] at hu
      split at hu
      next => cases hu
      next => exact hinv.outside u hu
    · refine hinv.worker u fun h => hu ?_
      rw [setPc_pc, if_neg fun hut => by rw [hut, hpc] at h; cases h]
      exact h
    · exact search_remove_iff hinv.htTid (fun u hu h => hinv.tids u (hinv.live_of_registered hu) t hlive h)
        hinv.distinctTid hremove hreg' k v
    · exact search_remove_iff hinv.htPthread
        (fun u hu h => hinv.pthreads u (hinv.live_of_registered hu) t hlive h)
        hinv.distinctPthread hremove' hreg' k v
    · show (Function.update s.kernel t (env.sys.store (s.worker w).originalAffinity) u).Same (s.last u)
      by_cases hut : u = t
      · rw [hut, Function.update_self]
        intro i
        rw [AffinityKernel.store, hfits.same_resize i]
        exact hinv.fake t w hreg hw i
      · rw [Function.update_of_ne hut]
        refine hinv.kernel u hu ?_
        by_contra h
        have := (hreg' u).mpr ⟨hut, by simpa using h⟩
        have hno' : (Function.update s.pc t AffinityPc.leaving u).registered = false := hno
        rw [this] at hno'
        cases hno'
    · exact hinv.fake u v ((hreg' u).mp hu).2 hv
  next => cases hstep

/-! ## Every run -/

theorem Inv.step {op : AffinityOp} (haccepts : env.sys.accepts originalAffinitySize = true)
    (hinv : s.Inv env) (hstores : s.Stores env op) (hstep : s.step env op = some s') : s'.Inv env := by
  cases op with
  | spawn t tid pthread mask =>
      obtain ⟨⟨hnew, htid, hpthread, hids⟩, heq⟩ := Option.ite_none_right_eq_some.mp hstep
      cases heq
      exact hinv.spawn hnew htid hpthread hids
  | exit t =>
      obtain ⟨⟨hlive, hpc⟩, heq⟩ := Option.ite_none_right_eq_some.mp hstep
      cases heq
      exact hinv.exit hlive hpc
  | create t =>
      obtain ⟨⟨hlive, hpc⟩, heq⟩ := Option.ite_none_right_eq_some.mp hstep
      cases heq
      exact hinv.create hlive hpc
  | fail t =>
      obtain ⟨hpc, heq⟩ := Option.ite_none_right_eq_some.mp hstep
      cases heq
      exact hinv.release (by rw [hpc]; rfl)
  | register t =>
      rw [AffinityState.step] at hstep
      split at hstep
      next w hpc hw =>
        cases hstep
        exact hinv.register hpc hw haccepts
      next => cases hstep
  | block t =>
      obtain ⟨hpc, heq⟩ := Option.ite_none_right_eq_some.mp hstep
      cases heq
      exact hinv.block hpc
  | wake t cpu =>
      rw [AffinityState.step] at hstep
      split at hstep
      next w hpc hw =>
        cases hstep
        exact hinv.wake hpc hw
      next => cases hstep
  | unregister t =>
      rw [AffinityState.step] at hstep
      split at hstep
      next w hpc hw =>
        obtain ⟨s₁, hs₁, rfl⟩ := Option.map_eq_some_iff.mp hstep
        exact hinv.unregister hpc hw (hstores w hw) hs₁
      next => cases hstep
  | free t =>
      obtain ⟨hpc, heq⟩ := Option.ite_none_right_eq_some.mp hstep
      cases heq
      exact hinv.release (by rw [hpc]; rfl)
  | set caller handle mask =>
      obtain ⟨⟨hlive, huser⟩, heq⟩ := Option.ite_none_right_eq_some.mp hstep
      split at heq
      next t htarget =>
        cases heq
        exact hinv.set ⟨htarget, fun h => h ▸ huser⟩ hstores
      next htarget =>
        cases heq
        rw [setaffinity, hinv.findWorker_none hlive htarget, htarget]
        exact hinv

/-- Detaching does not abort: the worker is in both tables. -/
theorem Inv.unregister_isSome (hinv : s.Inv env) (hpc : s.pc t = .attached) :
    (s.step env (.unregister t)).isSome := by
  have hreg : (s.pc t).registered := by rw [hpc]; rfl
  have hlive := hinv.live_of_registered hreg
  obtain ⟨w, hw, -, htid, hpthread⟩ := hinv.current_of_registered hreg
  have hsearch := hinv.search_tid hlive
  have hsearch' := hinv.search_pthread hlive
  rw [if_pos hreg, hw] at hsearch hsearch'
  obtain ⟨ht, hremove⟩ := remove_of_search hsearch
  obtain ⟨ht', hremove'⟩ := remove_of_search hsearch'
  simp only [AffinityState.step, hpc, hw, unregisterWorker, htid, hpthread, hremove, hremove',
    Option.map_some, Option.isSome_some]

/-- The registers that a step does not set stay as they are. -/
theorem step_last {op : AffinityOp} (hstep : s.step env op = some s') (ht : t ∈ s.live)
    (hsets : s.sets op ≠ some t) : s'.last t = s.last t := by
  cases op with
  | spawn u tid pthread mask =>
      obtain ⟨⟨hnew, -⟩, heq⟩ := Option.ite_none_right_eq_some.mp hstep
      cases heq
      exact Function.update_of_ne (fun h : t = u => hnew (h ▸ ht)) ..
  | register u | wake u cpu =>
      rw [AffinityState.step] at hstep
      split at hstep
      · cases hstep
        first | rfl | (unfold wakeInternal; simp only [setPc, setWorker]; split <;> [split; skip] <;> rfl)
      · cases hstep
  | unregister u =>
      rw [AffinityState.step] at hstep
      split at hstep
      next w hpc hw =>
        obtain ⟨s₁, hs₁, rfl⟩ := Option.map_eq_some_iff.mp hstep
        rw [unregisterWorker] at hs₁
        split at hs₁ <;> cases hs₁
        rfl
      next => cases hstep
  | set caller handle mask =>
      obtain ⟨-, heq⟩ := Option.ite_none_right_eq_some.mp hstep
      split at heq
      next u htarget =>
        cases heq
        exact Function.update_of_ne (fun h : t = u => hsets (h ▸ htarget)) ..
      next htarget =>
        cases heq
        unfold setaffinity
        split
        · rfl
        · rw [htarget]
  | exit u | create u | fail u | block u | free u =>
      obtain ⟨-, heq⟩ := Option.ite_none_right_eq_some.mp hstep
      cases heq
      rfl

theorem Inv.keeps {op : AffinityOp} (hinv : s.Inv env) (hinv' : s'.Inv env)
    (hstep : s.step env op = some s') : s.Keeps env op s' := by
  intro t ht hsets caller handle g hname hname' mask hmask mask' hmask'
  rw [hinv.registers caller handle t g hname] at hmask
  rw [hinv'.registers caller handle t g hname', step_last hstep ht hsets] at hmask'
  obtain ⟨-, hmask⟩ := Option.ite_none_right_eq_some.mp hmask
  obtain ⟨-, hmask'⟩ := Option.ite_none_right_eq_some.mp hmask'
  exact Option.some.inj (hmask'.symm.trans hmask)

theorem Inv.detaches (hinv : s.Inv env) (op : AffinityOp) : s.Detaches env op := by
  cases op with
  | unregister t => exact hinv.unregister_isSome
  | _ => trivial

/-- A thread has a register that all calls read and write, in every state of
a run, as long as the kernel has room for the masks that it is given. -/
theorem thread_registers (env : AffinityEnv) (ops : List AffinityOp) {s₀ : AffinityState}
    (hinit : affinitySupportInit env = some s₀) (hstores : Along (step env) (Stores env) s₀ ops) :
    Along (step env) (fun s op => s.Detaches env op
      ∧ ∀ s', s.step env op = some s' → s'.Registers env ∧ s.Keeps env op s') s₀ ops := by
  rw [affinitySupportInit] at hinit
  obtain ⟨haccepts, hstart⟩ := Option.ite_none_right_eq_some.mp hinit
  obtain rfl := Option.some.inj hstart
  refine along_of_invariant (fun s op s' hstores hstep hinv => hinv.step haccepts hstores hstep)
    (fun s op hstores hinv => ⟨hinv.detaches op, fun s' hstep => ?_⟩) hstores inv_start
  have hinv' := hinv.step haccepts hstores hstep
  exact ⟨hinv'.registers, hinv.keeps hinv' hstep⟩

/-! A machine with 128 CPUs, whose kernel reads masks in words. -/

def words : AffinityEnv where
  sys := ⟨16, fun g => decide (16 ≤ g ∧ g % 8 = 0), fun _ h => (of_decide_eq_true h).1⟩
  hash := id
  cpuset _ := [1]
  malloc := []

/-- An attached thread sets CPU 1600, which only its worker has room for,
and CPU 9 before it detaches. -/
def outsized : List AffinityOp :=
  [.spawn 0 10 20 [1], .set 0 (.tid 0) [2], .create 0, .register 0, .block 0, .wake 0 0,
    .set 0 (.tid 10) (List.replicate 200 0 ++ [1]), .set 0 (.pthread 20) [0, 2], .unregister 0, .free 0]

theorem thread_registers_outsized :
    ∃ s₀, affinitySupportInit words = some s₀ ∧ (run (step words) s₀ outsized).isSome
      ∧ Along (step words) (fun s op => s.Detaches words op
        ∧ ∀ s', s.step words op = some s' → s'.Registers words ∧ s.Keeps words op s') s₀ outsized :=
  ⟨start, rfl, by decide +kernel, thread_registers words outsized rfl (by decide +kernel)⟩

/-- Eight bytes are enough to ask a thread that is attached, and too few for
the kernel. -/
theorem short_get_refused :
    ¬ ∀ env ops s₀ s, affinitySupportInit env = some s₀ → Along (step env) (Stores env) s₀ ops →
      run (step env) s₀ ops = some s → ∀ caller handle t g, s.CanName caller handle t →
        s.getaffinity env caller handle g = some ((s.last t).resize g) := by
  intro hall
  have hrun : ∃ s ∈ run (step words) start [.spawn 0 10 20 [1]],
      s.target 0 (.tid 0) = some 0 ∧ (s.pc 0).user = true
        ∧ s.getaffinity words 0 (.tid 0) 8 = none := by
    decide +kernel
  obtain ⟨s, hs, htarget, huser, hnone⟩ := hrun
  have hget := hall words _ start s rfl (by decide) hs 0 (.tid 0) 0 8 ⟨htarget, fun _ => huser⟩
  rw [hnone] at hget
  cases hget

end AffinityState

end Nosv
