import Nosv.ConfiguredLevels
import Nosv.CpuBitset

/-!
# The NUMA node without libnuma

`topology_init_numa_from_none` prints the valid CPUs into a buffer and gives
the buffer to `topology_init_from_config` as the items of an array. An item
of a configuration array is a pointer to a string; characters in its place
are none, and what is read through them is undefined. The text that is
printed is right, and as the one string of an array it would give the node.
-/

namespace Nosv

open CString

/-- `items` of a `generic_array_t` -/
inductive ConfigItems where
  | strings (items : List (List Char))
  | chars (text : List Char)

/-- `((char **) config->items)[i]`, if there is a pointer to a string -/
def ConfigItems.string : ConfigItems → Nat → Option (List Char)
  | .strings items, i => items[i]?
  | .chars _, _ => none

/-- The CPUs of a list, if `cpu_bitset_parse_str` returns 0 -/
def parseList (s : List Char) : Option (Finset Nat) :=
  match CpuBitset.parseStr (topoNrCpus + 1) s with
  | .ended (ret, set) => if ret = 0 then some set.cpus else none
  | .running | .undefined => none

/-- The lists of an array of `n` items -/
def configSets (items : ConfigItems) (n : Nat) : Option (List (Finset Nat)) :=
  (List.range n).mapM fun i => (items.string i).bind parseList

/-- `snprintf_check`, where `offset` is the length of the string -/
def snprintfCheck (maxsize : Nat) (str text : List Char) : Option (List Char) :=
  if maxsize ≤ str.length + text.length then none else some (str ++ text)

/-- The body of the loop that prints the CPUs, with its counter -/
def printCpu (maxsize : Nat) (str : List Char) (cpu : Nat × Nat) : Option (List Char) :=
  snprintfCheck maxsize str ((if 0 < cpu.2 then [','] else []) ++ Nat.toDigits 10 cpu.1)

/-- `cpulist` -/
def printCpus (validCpus : Finset Nat) : Option (List Char) :=
  (forEachCpu validCpus).zipIdx.foldlM (printCpu ((forEachCpu validCpus).length * 4)) []

namespace TopoTables

/-- `topology_init_from_config` for the NUMA level, from an array -/
def initNumaFromItems (t : TopoTables) (validCpus : Finset Nat) (items : ConfigItems) (n : Nat) :
    Option TopoTables := do
  let sets ← configSets items n
  t.topologyInitFromConfig .numa .complexSet validCpus sets false

/-- `topology_init_numa_from_none` -/
def topologyInitNumaFromNone (t : TopoTables) (validCpus : Finset Nat) : Option TopoTables := do
  let cpulist ← printCpus validCpus
  t.initNumaFromItems validCpus (.chars cpulist) (forEachCpu validCpus).length

/-- One node with all CPUs, which is the node of every lower domain -/
structure OneNuma (t : TopoTables) (validCpus : Finset Nat) : Prop where
  count : t.count .numa = 1
  logical : (t.dom .numa 0).parents .numa = 0
  system : (t.dom .numa 0).systemId = 0
  sidMask : (t.dom .numa 0).cpuSidMask = validCpus
  lidMask : (t.dom .numa 0).cpuLidMask = validCpus.image t.cpuLid
  parents : ∀ j, TopoLevel.rank .numa < j.rank → ∀ l < t.count j, (t.dom j l).parents .numa = 0

variable {t : TopoTables} {valid : Finset Nat}

/-- With no lists, each core is a complex set. -/
theorem exists_reached_complexSets {siblings : Nat → Finset Nat} (hlt : ∀ c ∈ valid, c < topoNrCpus)
    (hsib : ∀ c ∈ valid, c ∈ siblings c)
    (h : ((someMemory.topologyInitCpus valid).bind fun t => t.topologyInitCores valid siblings).isSome = true) :
    ∃ t, Reached valid t .numa .complexSet := by
  obtain ⟨t, ht⟩ := exists_reached_cores hlt hsib h
  obtain ⟨hp, hk, hbelow⟩ := ht.prepared
  have hids : (t.uncovered .core valid []).length ≤ t.count .core :=
    (List.length_filter_le _ _).trans (List.length_range ▸ Nat.le_refl _)
  have hfit : ListsFit t .complexSet .core valid [] true :=
    { inside := fun _ hpin => absurd hpin List.not_mem_nil
      whole := fun _ hpin => absurd hpin List.not_mem_nil
      ids := fun _ hpin => absurd hpin List.not_mem_nil
      remainingIds := fun _ => Or.inr (by rwa [List.length_nil, Nat.zero_add]) }
  have hadd : Addable t .complexSet valid (t.count .core - 1) [] (kept valid [] 0) :=
    addable_nil List.Pairwise.nil
  have hcpus : ∀ cpus ∈ ([] : List (Finset Nat)), ∀ c ∈ cpus, c < topoNrCpus :=
    fun _ hin => absurd hin List.not_mem_nil
  obtain ⟨t', ht'⟩ := (topologyInitFromConfig_iff hp hk hbelow hcpus).1.mpr
    ⟨hadd, madeFrom_ids.mpr ⟨hfit.ids, hfit.remainingIds⟩,
      covered_madeFrom hp hbelow (fun h => nomatch h) hfit⟩
  exact ⟨t', .complexSets ht hcpus ht'⟩

/-- Characters are no strings, so nothing is built. -/
theorem numa_fallback_fails (t : TopoTables) (hne : valid.Nonempty) (hlt : ∀ c ∈ valid, c < topoNrCpus) :
    ¬ ∃ t', t.topologyInitNumaFromNone valid = some t' ∧ OneNuma t' valid := by
  rintro ⟨t', h, -⟩
  obtain ⟨cpulist, -, h⟩ := Option.bind_eq_some_iff.mp h
  obtain ⟨sets, hsets, -⟩ := Option.bind_eq_some_iff.mp h
  obtain ⟨c, hc⟩ := hne
  have hpos : 0 < (forEachCpu valid).length :=
    List.length_pos_of_mem (mem_forEachCpu.mpr ⟨hlt c hc, hc⟩)
  obtain ⟨n, hn⟩ := Nat.exists_eq_add_of_lt hpos
  rw [Nat.zero_add] at hn
  rw [configSets, hn, List.range_succ_eq_map, List.mapM_cons] at hsets
  obtain ⟨first, hfirst, -⟩ := Option.bind_eq_some_iff.mp hsets
  cases hfirst

theorem numa_fallback_fails_zero :
    ¬ ∃ t', someMemory.topologyInitNumaFromNone {0, 1} = some t' ∧ OneNuma t' {0, 1} :=
  numa_fallback_fails someMemory (Finset.insert_nonempty 0 {1}) (by decide)

/-- Two CPUs on two cores and two complex sets -/
theorem no_numa_of_two_cpus :
    ∃ t, Reached {0, 1} t .numa .complexSet ∧ t.topologyInitNumaFromNone {0, 1} = none := by
  obtain ⟨t, ht⟩ := exists_reached_complexSets (by decide : ∀ c ∈ ({0, 1} : Finset Nat), c < topoNrCpus)
    (by decide : ∀ c ∈ ({0, 1} : Finset Nat), c ∈ ({c} : Finset Nat)) (by decide +kernel)
  exact ⟨t, ht, by
    have htext : printCpus {0, 1} = some "0,1".toList := by decide +kernel
    have hcount : (forEachCpu {0, 1}).length = 2 := by decide +kernel
    rw [topologyInitNumaFromNone, htext, hcount]
    rfl⟩

/-! ## The text -/

/-- What the loop appends for a CPU -/
def printed (cpu : Nat × Nat) : List Char := (if 0 < cpu.2 then [','] else []) ++ Nat.toDigits 10 cpu.1

/-- Three digits and a comma -/
theorem length_printed {cpu : Nat × Nat} (h : cpu.1 < topoNrCpus) : (printed cpu).length ≤ 4 := by
  have hdigits : (Nat.toDigits 10 cpu.1).length ≤ 3 :=
    (Nat.length_toDigits_le_iff (by decide) (by decide)).mpr (h.trans (by decide))
  rw [printed, List.length_append]
  split
  · rw [List.length_singleton]
    omega
  · rw [List.length_nil]
    omega

/-- The CPUs after the first one take at most four bytes each. -/
theorem foldlM_printCpu {maxsize i : Nat} {cpus : List Nat} (hlt : ∀ c ∈ cpus, c < topoNrCpus)
    {str : List Char} (hsize : str.length + 4 * cpus.length < maxsize) :
    (cpus.zipIdx i).foldlM (printCpu maxsize) str = some (str ++ (cpus.zipIdx i).flatMap printed) := by
  induction cpus generalizing i str with
  | nil =>
      rw [List.zipIdx_nil, List.flatMap_nil, List.append_nil]
      rfl
  | cons c cpus ih =>
      have hc : (printed (c, i)).length ≤ 4 := length_printed (hlt c List.mem_cons_self)
      rw [List.length_cons] at hsize
      have hstep : printCpu maxsize str (c, i) = some (str ++ printed (c, i)) := by
        have hfits : ¬ maxsize ≤ str.length + (printed (c, i)).length := by omega
        exact if_neg hfits
      rw [List.zipIdx_cons, List.foldlM_cons, hstep, List.flatMap_cons, ← List.append_assoc]
      refine ih (fun c' hc' => hlt c' (List.mem_cons_of_mem c hc')) ?_
      rw [List.length_append]
      omega

theorem flatMap_printed {i : Nat} {cpus : List Nat} (hi : 0 < i) :
    (cpus.zipIdx i).flatMap printed = (cpus.map (Nat.toDigits 10)).flatMap ([','] ++ ·) := by
  induction cpus generalizing i with
  | nil => rfl
  | cons c cpus ih =>
      rw [List.zipIdx_cons, List.flatMap_cons, ih (Nat.succ_pos i), List.map_cons, List.flatMap_cons, printed,
        if_pos hi]

theorem intercalate_cons (field : List Char) (fields : List (List Char)) :
    [','].intercalate (field :: fields) = field ++ fields.flatMap ([','] ++ ·) := by
  induction fields generalizing field with
  | nil => rw [List.intercalate_singleton, List.flatMap_nil, List.append_nil]
  | cons field' fields ih =>
      rw [List.intercalate_cons_cons, ih, List.flatMap_cons, List.append_assoc, List.append_assoc]

/-- The buffer is large enough, and the text is the list of the CPUs. -/
theorem printCpus_eq (hne : valid.Nonempty) (hlt : ∀ c ∈ valid, c < topoNrCpus) :
    printCpus valid = some ([','].intercalate ((forEachCpu valid).map (Nat.toDigits 10))) := by
  have hall : ∀ c ∈ forEachCpu valid, c < topoNrCpus := fun c hc => (mem_forEachCpu.mp hc).1
  obtain ⟨c, hc⟩ := hne
  have hin : c ∈ forEachCpu valid := mem_forEachCpu.mpr ⟨hlt c hc, hc⟩
  obtain ⟨first, rest, hcpus⟩ := List.exists_cons_of_ne_nil (List.ne_nil_of_mem hin)
  rw [hcpus] at hall
  have hfirst : (Nat.toDigits 10 first).length ≤ 3 :=
    (Nat.length_toDigits_le_iff (by decide) (by decide)).mpr ((hall first List.mem_cons_self).trans (by decide))
  have hstep : printCpu ((rest.length + 1) * 4) [] (first, 0) = some (Nat.toDigits 10 first) := by
    have hfits : ¬ (rest.length + 1) * 4 ≤ 0 + (Nat.toDigits 10 first).length := by omega
    exact if_neg hfits
  rw [printCpus, hcpus, List.length_cons, List.zipIdx_cons, List.foldlM_cons, hstep, List.map_cons,
    intercalate_cons, ← flatMap_printed Nat.one_pos]
  refine foldlM_printCpu (fun c' hc' => hall c' (List.mem_cons_of_mem first hc')) ?_
  omega

/-- The text is read as the valid CPUs. -/
theorem parseList_cpus (hne : valid.Nonempty) (hlt : ∀ c ∈ valid, c < topoNrCpus) :
    parseList ([','].intercalate ((forEachCpu valid).map (Nat.toDigits 10))) = some valid := by
  have hvalue : ∀ c, digitsValue (Nat.toDigits 10 c) = c := digitsValue_toDigits
  have hlist : IsCpuList ([','].intercalate ((forEachCpu valid).map (Nat.toDigits 10)))
      ((forEachCpu valid).map fun c => .single (Nat.toDigits 10 c)) := by
    refine ⟨fun hnil => ?_, fun item hitem => ?_, Or.inl ?_⟩
    · obtain ⟨c, hc⟩ := hne
      have hin : c ∈ forEachCpu valid := mem_forEachCpu.mpr ⟨hlt c hc, hc⟩
      rw [List.map_eq_nil_iff.mp hnil] at hin
      exact absurd hin List.not_mem_nil
    · obtain ⟨c, hc, rfl⟩ := List.mem_map.mp hitem
      refine ⟨fun digits hd => ?_, Nat.le_refl _, ?_, Nat.le_refl 1⟩
      · rw [List.mem_singleton.mp hd]
        exact isNumeral_toDigits c
      · change digitsValue (Nat.toDigits 10 c) < topoNrCpus
        rw [hvalue]
        exact (mem_forEachCpu.mp hc).1
    · rw [List.map_map]
      rfl
  obtain ⟨set, hset, hcpus⟩ := CpuBitset.parseStr_ended (n := topoNrCpus + 1) hlist (fun item hitem => by
    obtain ⟨c, hc, rfl⟩ := List.mem_map.mp hitem
    have hc := (mem_forEachCpu.mp hc).1
    rw [CpuItem.beyond, CpuItem.first, CpuItem.last, CpuItem.stride, hvalue, Nat.sub_self]
    have hnr : topoNrCpus ≤ 2147483646 := by decide
    omega) (Nat.lt_succ_self _)
  have hvalid : set.cpus = valid := by
    ext c
    rw [← Finset.mem_coe, hcpus]
    constructor
    · rintro ⟨item, hitem, hhas⟩
      obtain ⟨c', hc', rfl⟩ := List.mem_map.mp hitem
      rw [CpuItem.Has, hvalue] at hhas
      rw [hhas]
      exact (mem_forEachCpu.mp hc').2
    · intro hc
      refine ⟨_, List.mem_map_of_mem (mem_forEachCpu.mpr ⟨hlt c hc, hc⟩), ?_⟩
      rw [CpuItem.Has, hvalue]
  rw [parseList, hset, ← hvalid]
  rfl

/-! ## The text in an array -/

theorem kept_all (hne : valid.Nonempty) : kept valid [valid] 0 = [(valid, 0)] := by
  have hmeets : valid ∩ valid ≠ ∅ := by
    rw [Finset.inter_self]
    exact hne.ne_empty
  rw [kept_cons_of_ne hmeets]
  rfl

/-- One list with all valid CPUs can be made a domain. -/
theorem addable_all {k below : TopoLevel} (hp : Prepared t valid k) (hbelow : below.rank = k.rank + 1)
    (hne : valid.Nonempty) :
    0 < t.count below ∧ Addable t k valid (t.count below - 1) [] (kept valid [valid] 0) := by
  obtain ⟨c, hc⟩ := hne
  obtain ⟨m, hm, -⟩ := (hp.lower below (by omega)).part.member c hc
  refine ⟨Nat.zero_lt_of_lt hm, ?_⟩
  rw [kept_all ⟨c, hc⟩]
  refine ⟨fun p hpin => ?_, List.pairwise_singleton _ _⟩
  rw [List.mem_singleton.mp hpin]
  exact ⟨by dsimp only; omega, Finset.Subset.refl valid⟩

/-- A level with one domain of all CPUs -/
theorem Built.one {k : TopoLevel} {j : TopoLevel} {l : Nat} (h : Built t valid k 1 valid)
    (hj : Built t valid j (t.count j) valid) (hrank : k.rank < j.rank) (hl : l < t.count j) :
    (t.dom j l).parents k = 0 := by
  obtain ⟨c, hc⟩ := hj.nonempty l hl
  obtain ⟨hv, hlid⟩ := (hj.part.sidMask l hl c).mp hc
  obtain ⟨m, hm, hcm⟩ := h.part.member c hv
  have hset := (h.part.below j hrank c hv).2
  rw [hlid, Int.toNat_natCast, hcm] at hset
  rw [hset]
  omega

/-- As the one string of an array, the text would give the node. -/
theorem numa_of_string (hreach : Reached valid t .numa .complexSet) (hne : valid.Nonempty) :
    ∃ text t', printCpus valid = some text ∧ t.initNumaFromItems valid (.strings [text]) 1 = some t'
      ∧ OneNuma t' valid := by
  obtain ⟨hp, hk, hbelow⟩ := hreach.prepared
  obtain ⟨hpos, hadd⟩ := addable_all hp hbelow hne
  have hmade : madeFrom t .complexSet valid [valid] false = [(valid, 0)] := by
    rw [madeFrom, kept_all hne]
    rfl
  have hcov : covered (madeFrom t .complexSet valid [valid] false) = valid := by
    rw [hmade]
    exact Finset.union_empty valid
  have hcpus : ∀ cpus ∈ [valid], ∀ c ∈ cpus, c < topoNrCpus := fun cpus hin => by
    rw [List.mem_singleton.mp hin]
    exact hp.lt
  obtain ⟨hiff, hmakes⟩ := topologyInitFromConfig_iff hp hk hbelow hcpus
  obtain ⟨t', ht'⟩ := hiff.mpr ⟨hadd, fun p hpin => by
    rw [hmade] at hpin
    rw [List.mem_singleton.mp hpin]
    exact hpos, hcov⟩
  refine ⟨_, t', printCpus_eq hne hp.lt, ?_, ?_⟩
  · have hsets : configSets (.strings [[','].intercalate ((forEachCpu valid).map (Nat.toDigits 10))]) 1
        = some [valid] := by
      have hparse := parseList_cpus hne hp.lt
      simp only [configSets, List.range_one, List.mapM_cons, List.mapM_nil, ConfigItems.string,
        List.getElem?_cons_zero, Option.bind_some, hparse]
      rfl
    rw [initNumaFromItems, hsets]
    exact ht'
  · have hstage := topologyInitFromConfig_stage hp.cpus hp.lt (by decide) hk (hp.lower .complexSet (by decide))
      (hp.fresh hk) ht'
    obtain ⟨scan, hscan, rfl⟩ := hmakes t' ht'
    have hcount : (scan.tables.truncateLevel .numa scan.logicalId).count .numa = 1 := by
      rw [truncateLevel_count, hscan.length, hmade]
      rfl
    obtain ⟨hid, hmask⟩ := hscan.domains 0 (valid, 0) (by rw [hmade]; rfl)
    have hbuilt := hstage.built
    rw [hcount] at hbuilt
    refine ⟨hcount, hbuilt.part.own 0 Nat.one_pos, hid, hmask, ?_, fun j hj l hl => ?_⟩
    · rw [hbuilt.part.lidMask 0 Nat.one_pos]
      change (scan.tables.dom .numa 0).cpuSidMask.image _ = _
      rw [hmask, funext (hstage.only.cpuLid hk)]
    · have hlower := (hp.lower j hj).only hstage.only hj
      rw [← hstage.only.count j (ne_of_rank_lt hj)] at hlower
      exact hbuilt.one hlower hj hl

end TopoTables

end Nosv
