import Mathlib.Algebra.Order.BigOperators.Group.List
import Mathlib.Algebra.Order.Field.Rat
import SharedNode.ControlPlane.Types

/-!
# The status of a node

What a heartbeat says of a node: the measures `containerMetrics` (`internal/docker/runtime.go`)
takes of each container, the status `deriveNodeStatus` (`cmd/xmcl-shared-node-agent/main.go`) makes
of them, and the check `NodeStatus.Valid` (`internal/controlplane/types.go`) that `Heartbeat` makes
before it sends one. A CPU percentage is computed as the code does, every operation rounded to a
`float64`.

Left out: the request for the statistics, the parsing of labels and of the environment (what they
accept are proof fields of `Container` and `Config`), and the JSON of a heartbeat.
-/

namespace SharedNode.Status

open ControlPlane

/-- The statistics of a container. -/
structure Stats where
  totalUsage : Nat := 0
  percpuUsage : List Nat := []
  systemUsage : Nat := 0
  onlineCPUs : Nat := 0
  preTotalUsage : Nat := 0
  preSystemUsage : Nat := 0
  memoryUsage : Nat := 0
  inactiveFile : Nat := 0

/-- A running container: its labels, as `resourcesFromLabels` accepts them, and its statistics. -/
structure Container where
  serviceID : String
  assignmentID : String
  memoryMiB : Int
  sharedCPU : Int
  workspaceGiB : Int
  stats : Stats
  named : serviceID ≠ "" ∧ assignmentID ≠ ""
  sized : 1 ≤ memoryMiB ∧ 1 ≤ sharedCPU ∧ 1 ≤ workspaceGiB

/-- The nearest integer, of two the even one. -/
def nearest (x : ℚ) : ℤ :=
  if 1 < 2 * (x - x.floor) ∨ 2 * (x - x.floor) = 1 ∧ x.floor % 2 = 1 then x.floor + 1 else x.floor

/-- The exponent `e` of a positive number with `2 ^ e ≤ x < 2 ^ (e + 1)`. -/
def exponent (x : ℚ) : ℤ :=
  let e : ℤ := (Nat.log2 x.num.toNat : ℤ) - Nat.log2 x.den
  if 2 ^ e ≤ x then e else e - 1

/-- A number that is not negative as a `float64`: 53 bits, to nearest, ties to even. What is
computed of 64-bit numbers here lies between `2 ^ (-64)` and `2 ^ 103`, where a `float64` is normal.
-/
def float64 (x : ℚ) : ℚ :=
  if x ≤ 0 then 0 else nearest (x / 2 ^ (exponent x - 52)) * 2 ^ (exponent x - 52)

/-- The first measure of `containerMetrics`. -/
def cpuPercent (v : Stats) : ℚ :=
  let onlineCPUs := if v.onlineCPUs = 0 then v.percpuUsage.length % 2 ^ 32 else v.onlineCPUs
  let cpuDelta := v.totalUsage - v.preTotalUsage
  let systemDelta := v.systemUsage - v.preSystemUsage
  if v.preTotalUsage ≤ v.totalUsage ∧ v.preSystemUsage ≤ v.systemUsage ∧
      0 < cpuDelta ∧ 0 < systemDelta ∧ 0 < onlineCPUs then
    float64 (float64 (float64 (float64 cpuDelta / float64 systemDelta) * float64 onlineCPUs) * 100)
  else 0

/-- The second one; the sum wraps around. -/
def memoryUsageMiB (v : Stats) (memoryLimitMiB : Int) : Int :=
  let usage :=
    if v.inactiveFile < v.memoryUsage then v.memoryUsage - v.inactiveFile else v.memoryUsage
  min ((usage + 2 ^ 20 - 1) % 2 ^ 64 / 2 ^ 20 : Nat) memoryLimitMiB

structure AvailableCapacity where
  freeWorkspaceGiB : Int := 0
  allocatableMemoryMiB : Int := 0
  allocatableSharedCPU : Int := 0
  activeContainerCount : Int := 0

structure ServiceStatus where
  serviceID : String
  assignmentID : String
  cpuPercent : ℚ
  memoryUsageMiB : Int
  memoryLimitMiB : Int

structure NodeStatus where
  contractVersion : Int := 2
  status : String := "ready"
  capacity : AvailableCapacity
  services : List ServiceStatus := []
  agentVersion : String
  host : String

/-- The totals and the ingress, as `config.Load` accepts them. -/
structure Config where
  totalMemoryMiB : Int
  totalSharedCPU : Int
  totalWorkspaceGiB : Int
  ingressHost : String
  sized : 1 ≤ totalMemoryMiB ∧ 1 ≤ totalSharedCPU ∧ 1 ≤ totalWorkspaceGiB
  ingress : validIngressHost ingressHost = true

def subtractCapacity (total allocated : Int) : Int :=
  if total ≤ allocated then 0 else total - allocated

def serviceStatus (k : Container) : ServiceStatus :=
  ⟨k.serviceID, k.assignmentID, cpuPercent k.stats, memoryUsageMiB k.stats k.memoryMiB, k.memoryMiB⟩

/-- One round of the loop of `deriveNodeStatus`. -/
def addService (s : NodeStatus) (k : Container) : NodeStatus :=
  { s with
    capacity := ⟨subtractCapacity s.capacity.freeWorkspaceGiB k.workspaceGiB,
      subtractCapacity s.capacity.allocatableMemoryMiB k.memoryMiB,
      subtractCapacity s.capacity.allocatableSharedCPU k.sharedCPU, s.capacity.activeContainerCount⟩
    services := s.services ++ [serviceStatus k] }

/-- A node whose containers cannot be listed reports that it is draining. -/
def deriveNodeStatus (cfg : Config) (agentVersion : String) :
    Except String (List Container) → NodeStatus
  | .error _ => { status := "draining", capacity := {}, agentVersion, host := cfg.ingressHost }
  | .ok running =>
    running.foldl addService
      { capacity := ⟨cfg.totalWorkspaceGiB, cfg.totalMemoryMiB, cfg.totalSharedCPU, running.length⟩
        agentVersion, host := cfg.ingressHost }

def ServiceStatus.valid (s : ServiceStatus) : Bool :=
  s.serviceID ≠ "" && s.assignmentID ≠ "" && 0 ≤ s.cpuPercent && s.cpuPercent ≤ 10000 &&
    0 ≤ s.memoryUsageMiB && 1 ≤ s.memoryLimitMiB && s.memoryUsageMiB ≤ s.memoryLimitMiB

def key (serviceID assignmentID : String) : String := serviceID ++ "\x00" ++ assignmentID

/-- The loop of `Valid`, with the keys it has seen. -/
def servicesValid : List String → List ServiceStatus → Bool
  | _, [] => true
  | seen, s :: rest =>
    s.valid && !(seen.contains (key s.serviceID s.assignmentID)) &&
      servicesValid (key s.serviceID s.assignmentID :: seen) rest

def NodeStatus.valid (s : NodeStatus) : Bool :=
  s.contractVersion = 2 && (s.status = "ready" || s.status = "draining") &&
    0 ≤ s.capacity.freeWorkspaceGiB && 0 ≤ s.capacity.allocatableMemoryMiB &&
    0 ≤ s.capacity.allocatableSharedCPU && 0 ≤ s.capacity.activeContainerCount &&
    s.agentVersion ≠ "" && s.agentVersion.utf8ByteSize ≤ 128 && validIngressHost s.host &&
    servicesValid [] s.services

/-! ## What is left of a capacity -/

theorem subtractCapacity_foldl (l : List Int) (hl : ∀ n ∈ l, 0 ≤ n) {total : Int} (h : 0 ≤ total) :
    l.foldl subtractCapacity total = max 0 (total - l.sum) := by
  induction l generalizing total with
  | nil => simp [h]
  | cons n l ih =>
    have hn := hl n List.mem_cons_self
    have hsum : 0 ≤ l.sum := List.sum_nonneg fun m hm => hl m (List.mem_cons_of_mem n hm)
    have hnext : subtractCapacity total n = max 0 (total - n) := by
      unfold subtractCapacity
      split <;> omega
    rw [List.foldl_cons, ih (fun m hm => hl m (List.mem_cons_of_mem n hm)) (by omega), hnext,
      List.sum_cons]
    omega

theorem addService_foldl (l : List Container) (s : NodeStatus) : l.foldl addService s = { s with
      capacity := ⟨(l.map (·.workspaceGiB)).foldl subtractCapacity s.capacity.freeWorkspaceGiB,
        (l.map (·.memoryMiB)).foldl subtractCapacity s.capacity.allocatableMemoryMiB,
        (l.map (·.sharedCPU)).foldl subtractCapacity s.capacity.allocatableSharedCPU,
        s.capacity.activeContainerCount⟩
      services := s.services ++ l.map serviceStatus } := by
  induction l generalizing s with
  | nil => simp
  | cons k l ih => simp [ih, addService]

/-! ## The check -/

theorem nearest_nonneg {x : ℚ} (h : 0 ≤ x) : 0 ≤ nearest x := by
  have hfloor : 0 ≤ x.floor := Rat.le_floor_iff.mpr h
  unfold nearest
  split <;> omega

theorem float64_nonneg (x : ℚ) : 0 ≤ float64 x := by
  unfold float64
  split
  · exact le_rfl
  next hx =>
    have hunit : (0 : ℚ) ≤ 2 ^ (exponent x - 52) := zpow_nonneg zero_le_two _
    have hint := nearest_nonneg (div_nonneg (le_of_not_ge hx) hunit)
    exact mul_nonneg (by exact_mod_cast hint) hunit

theorem cpuPercent_nonneg (v : Stats) : 0 ≤ cpuPercent v := by
  unfold cpuPercent
  extract_lets
  split
  · exact float64_nonneg _
  · exact le_rfl

/-- A quotient of exactly 10000 that is rounded to more. -/
example : 10000 < cpuPercent { totalUsage := 100, systemUsage := 11, onlineCPUs := 11 } := by
  decide +kernel

theorem serviceStatus_valid (k : Container) :
    (serviceStatus k).valid = true ↔ cpuPercent k.stats ≤ 10000 := by
  have hlow : 0 ≤ memoryUsageMiB k.stats k.memoryMiB :=
    le_min (Int.natCast_nonneg _) (by have := k.sized.1; omega)
  have hhigh : memoryUsageMiB k.stats k.memoryMiB ≤ k.memoryMiB := min_le_right _ _
  simp only [ServiceStatus.valid, serviceStatus, k.named, k.sized, cpuPercent_nonneg, hlow, hhigh,
    ne_eq, not_false_eq_true, decide_true, Bool.true_and, Bool.and_true]
  exact decide_eq_true_iff

def Container.key (k : Container) : String := Status.key k.serviceID k.assignmentID

theorem servicesValid_iff (l : List Container) (seen : List String) :
    servicesValid seen (l.map serviceStatus) = true ↔ (∀ k ∈ l, cpuPercent k.stats ≤ 10000) ∧
      (l.map Container.key).Nodup ∧ ∀ k ∈ l, k.key ∉ seen := by
  induction l generalizing seen with
  | nil => simp [servicesValid]
  | cons k l ih =>
    have hkey : key (serviceStatus k).serviceID (serviceStatus k).assignmentID = k.key := rfl
    simp only [List.map_cons, servicesValid, hkey, Bool.and_eq_true, serviceStatus_valid, ih]
    grind

/-- **What a heartbeat says**: `Heartbeat` sends it unless two containers have one key or one uses
more than a hundred CPUs; the capacities are what the containers leave, whatever their order. -/
theorem heartbeat_valid_iff (cfg : Config) (version : String) (l : List Container) :
    ((deriveNodeStatus cfg version (.ok l)).valid = true ↔
      version ≠ "" ∧ version.utf8ByteSize ≤ 128 ∧ (∀ k ∈ l, cpuPercent k.stats ≤ 10000) ∧
        (l.map Container.key).Nodup) ∧
    (deriveNodeStatus cfg version (.ok l)).capacity =
      ⟨max 0 (cfg.totalWorkspaceGiB - (l.map (·.workspaceGiB)).sum),
        max 0 (cfg.totalMemoryMiB - (l.map (·.memoryMiB)).sum),
        max 0 (cfg.totalSharedCPU - (l.map (·.sharedCPU)).sum), l.length⟩ := by
  obtain ⟨hmemory, hcpu, hworkspace⟩ := cfg.sized
  have hleft : ∀ (f : Container → Int) (total : Int), (∀ k, 1 ≤ f k) → 1 ≤ total →
      (l.map f).foldl subtractCapacity total = max 0 (total - (l.map f).sum) := by
    intro f total hf htotal
    refine subtractCapacity_foldl _ (fun n hn => ?_) (by omega)
    obtain ⟨k, -, rfl⟩ := List.mem_map.mp hn
    have := hf k
    omega
  simp only [deriveNodeStatus, addService_foldl, List.nil_append,
    hleft _ _ (fun k => k.sized.1) hmemory,
    hleft _ _ (fun k => k.sized.2.1) hcpu, hleft _ _ (fun k => k.sized.2.2) hworkspace, and_true]
  simp [NodeStatus.valid, servicesValid_iff, cfg.ingress, and_assoc]

/-- A node with two CPUs. -/
def sampleConfig : Config where
  totalMemoryMiB := 4096
  totalSharedCPU := 2
  totalWorkspaceGiB := 10
  ingressHost := "node.example"
  sized := by decide
  ingress := by decide

/-- A container that used half of one of two CPUs. -/
def sampleContainer (serviceID : String) (h : serviceID ≠ "") : Container where
  serviceID := serviceID
  assignmentID := "a"
  memoryMiB := 3072
  sharedCPU := 1
  workspaceGiB := 5
  stats := { totalUsage := 1, systemUsage := 4, onlineCPUs := 2, memoryUsage := 2 ^ 20 + 1 }
  named := ⟨h, by decide⟩
  sized := by decide

/-- Two containers that need more memory than there is. -/
theorem heartbeat_valid_iff_sample : (deriveNodeStatus sampleConfig "v1"
      (.ok [sampleContainer "s" (by decide), sampleContainer "t" (by decide)])).valid = true ∧
    (deriveNodeStatus sampleConfig "v1"
      (.ok [sampleContainer "s" (by decide), sampleContainer "t" (by decide)])).capacity =
        ⟨0, 0, 0, 2⟩ := by
  have h := heartbeat_valid_iff sampleConfig "v1"
    [sampleContainer "s" (by decide), sampleContainer "t" (by decide)]
  refine ⟨h.1.mpr ⟨by decide, by decide, fun k hk => ?_, by decide⟩, h.2.trans rfl⟩
  have hstats : k.stats = (sampleContainer "s" (by decide)).stats := by
    simp only [List.mem_cons, List.not_mem_nil, or_false] at hk
    rcases hk with rfl | rfl <;> rfl
  rw [hstats]
  decide +kernel

end SharedNode.Status
