import ChimesUtils.Linux.NetDev
import ChimesUtils.Linux.Times
import ChimesUtils.Performance.Counter
import ChimesUtils.Redis.Client

/-!
# The performance record

`get_performance_info` fills one record from the sources of the system. On Linux the times come as
(user, system, idle), and the record takes them for (kernel, user, idle), which is the order of the Windows
implementation.

`isUsages_iff`: when the usages are right all the same.
-/

namespace ChimesUtils

/-- `ChimesPerformanceInfo`. -/
structure ChimesPerformanceInfo where
  timestamp : ℕ
  cpuCores : ℕ
  kernelCpuUsages : F64
  userCpuUsages : F64
  idleCpuUsages : F64
  nowCpuTime : F64
  memoryUsed : ℕ
  memoryTotal : ℕ
  diskReadTotal : ℕ
  diskWriteTotal : ℕ
  networkRecvTotal : ℕ
  networkSendTotal : ℕ
  threads : ℕ
  handlers : ℕ
  success : Bool
  counter : CustomCounterInfo

/-- `nix::sys::sysinfo::SysInfo`; the memory that is unused is a part of the whole. -/
structure SysInfo where
  ramTotal : ℕ
  ramUnused : ℕ
  unused_le : ramUnused ≤ ramTotal

/-- What the functions read: the files of `/proc`, the entries of `/proc/<pid>/fdinfo` with whether they
could be read, the call of `sysinfo`, the clock, and the custom counters. -/
structure LinuxSystem where
  cpuinfo : ProcFile
  stat : ProcFile
  processStat : ProcFile
  processIo : ProcFile
  processNetDev : ProcFile
  fdinfo : Option (List Bool)
  sysinfo : Option SysInfo
  localTimestamp : ℕ
  customCounter : CustomCounter

/-- `LinuxPerformance::get_cpu_cores`, with the file `/proc/cpuinfo`. -/
def getCpuCores : ProcFile → ℕ
  | .unreadable => 0
  | .opened bytes => match fromUtf8 bytes with
    | some text => (lines text).countP (startsWith · "processor".toList) % 2 ^ 32
    | none => 0

/-- `LinuxPerformance::get_memory_usages`. -/
def getMemoryUsages : Option SysInfo → ℕ × ℕ
  | some mem => (mem.ramTotal, mem.ramTotal - mem.ramUnused)
  | none => (0, 0)

/-- `LinuxPerformance::get_handle_count`. -/
def getHandleCount : Option (List Bool) → ℕ
  | some entries => entries.count true % 2 ^ 32
  | none => 0

section Source

variable (substring : Text → ℕ → ℕ → Text)

/-- One of the two counters of the loop: the number after a title and one more character. -/
def ioLine (title line : Text) (counter : ℕ) : ℕ :=
  if startsWith line title then
    match parseU64 (substring line ((utf8 title).length + 1) (utf8 line).length) with
    | some t => fetchAdd counter t
    | none => counter
  else counter

/-- `LinuxPerformance::get_io_counter`, with the file of the process and the function of the
`substring` crate. -/
def getIoCounter : ProcFile → ℕ × ℕ
  | .unreadable => (0, 0)
  | .opened bytes => match fromUtf8 bytes with
    | some text => (lines text).foldl (fun counts line =>
        (ioLine substring "read_bytes:".toList line counts.1,
          ioLine substring "write_bytes:".toList line counts.2)) (0, 0)
    | none => (0, 0)

/-- `ChimesPerformanceInfo::get_performance_info`; the times can panic. -/
def getPerformanceInfo (sys : LinuxSystem) : Option (Except ChimesError ChimesPerformanceInfo) := do
  let hc := getHandleCount sys.fdinfo
  let tc := getThreadCount sys.processStat
  let (kcpu, ucpu, idle) ← getProcessTimes sys.stat
  let (ttl, mem) := getMemoryUsages sys.sysinfo
  let (dr, dw) := getIoCounter substring sys.processIo
  let cores := getCpuCores sys.cpuinfo
  let (inrc, wrc) := getNetworkIoCounter sys.processNetDev
  let nowTime := sys.localTimestamp
  return .ok {
    timestamp := nowTime
    kernelCpuUsages := kcpu
    userCpuUsages := ucpu
    idleCpuUsages := idle
    cpuCores := cores
    nowCpuTime := .ofRat nowTime
    memoryUsed := mem
    memoryTotal := ttl
    diskReadTotal := dr
    diskWriteTotal := dw
    networkRecvTotal := inrc
    networkSendTotal := wrc
    threads := tc
    handlers := hc
    success := true
    counter := sys.customCounter.intoCounting }

end Source

/-! ## The usages -/

/-- The usages that belong into the record. -/
def IsUsages (s : CpuLine) (info : ChimesPerformanceInfo) : Prop :=
  info.kernelCpuUsages.val = s.system.value ∧
    info.userCpuUsages.val = (s.user.value + s.nice.value : ℕ) ∧
    info.idleCpuUsages.val = s.idle.value

section Usages

variable (substring : Text → ℕ → ℕ → Text) (sys : LinuxSystem) (s : ProcStat)

theorem CpuCounter.val_ofRat (c : CpuCounter) : (F64.ofRat c.value).val = c.value :=
  F64.val_ofRat_natCast (by have := c.value_lt; omega)

theorem CpuLine.val_times (l : CpuLine) :
    l.times.1.val = (l.user.value + l.nice.value : ℕ) ∧ l.times.2.1.val = l.system.value ∧
      l.times.2.2.val = l.idle.value := by
  have huser := l.user.value_lt
  have hnice := l.nice.value_lt
  have hsum := F64.val_ofRat_natCast (n := l.user.value + l.nice.value) (by omega)
  refine ⟨?_, l.system.val_ofRat, l.idle.val_ofRat⟩
  show (F64.ofRat ((F64.ofRat l.user.value).val + (F64.ofRat l.nice.value).val)).val = _
  rw [l.user.val_ofRat, l.nice.val_ofRat, ← Nat.cast_add, hsum]

/-- **The record** takes the times in the order in which they come. -/
theorem getPerformanceInfo_text :
    ∃ info, getPerformanceInfo substring { sys with stat := .opened (utf8 s.text) } = some (.ok info) ∧
      (IsUsages s.aggregate info ↔
        s.aggregate.user.value + s.aggregate.nice.value = s.aggregate.system.value) := by
  obtain ⟨hfirst, hsecond, hthird⟩ := s.aggregate.val_times
  unfold getPerformanceInfo
  simp only [s.getProcessTimes_text, Option.bind_eq_bind, Option.bind_some]
  refine ⟨_, rfl, ?_⟩
  unfold IsUsages
  simp only [hfirst, hsecond, hthird, and_true, Nat.cast_inj]
  constructor
  · exact And.left
  · intro heq
    exact ⟨heq, heq.symm⟩

theorem exists_returned_iff {ε α : Type} {x : Option (Except ε α)} {a : α} (h : x = some (.ok a))
    (P : α → Prop) : (∃ b, x = some (.ok b) ∧ P b) ↔ P a := by
  constructor
  · rintro ⟨b, hsame, hb⟩
    rw [h, Option.some_inj, Except.ok.injEq] at hsame
    rw [hsame]
    exact hb
  · intro ha
    exact ⟨a, h, ha⟩

/-- **Usages.** They are right just when the users took as much time as the system. -/
theorem isUsages_iff :
    (∃ info, getPerformanceInfo substring { sys with stat := .opened (utf8 s.text) } = some (.ok info) ∧
      IsUsages s.aggregate info) ↔
    s.aggregate.user.value + s.aggregate.nice.value = s.aggregate.system.value := by
  obtain ⟨info, hinfo, husages⟩ := getPerformanceInfo_text substring sys s
  rw [exists_returned_iff hinfo]
  exact husages

end Usages

/-- A counter after one space. -/
def spacedCounter (n : ℕ) (h : n < 2 ^ 52) : CpuCounter where
  gap := [' ']
  value := n
  gap_ne_nil := List.cons_ne_nil _ _
  gap_blank := List.forall_mem_singleton.mpr ⟨by decide, by decide⟩
  value_lt := h

/-- The file `cpu 1 0 2 3`. -/
def fourCounters : ProcStat where
  before := []
  aggregate :=
    { user := spacedCounter 1 (by decide)
      nice := spacedCounter 0 (by decide)
      system := spacedCounter 2 (by decide)
      idle := spacedCounter 3 (by decide)
      further := []
      user_space := rfl
      further_blank := fun _ hc => absurd hc (by simp)
      further_newline := List.not_mem_nil }
  after := []
  before_other := List.forall_mem_nil _
  after_newline := fun _ hc => absurd hc (by simp)

/-- A system of which nothing can be read. -/
def unreadableSystem : LinuxSystem where
  cpuinfo := .unreadable
  stat := .unreadable
  processStat := .unreadable
  processIo := .unreadable
  processNetDev := .unreadable
  fdinfo := none
  sysinfo := none
  localTimestamp := 0
  customCounter := .default

/-- The time of the user is taken for that of the system, and the other way round. -/
theorem getPerformanceInfo_fourCounters :
    ¬ ∃ info, getPerformanceInfo (fun s start stop => (s.take stop).drop start)
        { unreadableSystem with stat := .opened (utf8 fourCounters.text) } = some (.ok info) ∧
      IsUsages fourCounters.aggregate info := by
  obtain ⟨info, hinfo, husages⟩ := getPerformanceInfo_text (fun s start stop => (s.take stop).drop start)
    unreadableSystem fourCounters
  rw [exists_returned_iff hinfo, husages]
  decide

end ChimesUtils
