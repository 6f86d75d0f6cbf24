import LibreEcho.Lib.Runs

/-!
How `adapter/mic_beamformer.c` follows a talker from beam to beam.

The spectra and the smoothing make up the scores of a hop, which are arbitrary here. A lock
moves the selected beam and leaves the count of the rival's hops as it is, so a rival that was
counted against another beam is switched to early once the lock is released.
-/
namespace LibreEcho.Mic

def leBeamHop : Nat := 128

def leBeamMaxBeams : Nat := 12

def beamSwitchRatio : ℚ := 14125 / 10000

def beamSwitchHops : Nat := 12

def beamActiveScore : ℚ := 2

/-- A count of beams that `le_beamformer_init` takes. -/
structure Beams where
  count : Nat
  positive : 0 < count
  atMost : count ≤ leBeamMaxBeams

abbrev Beams.Beam (beams : Beams) : Type := Fin beams.count

instance (beams : Beams) : NeZero beams.count := ⟨beams.positive.ne'⟩

variable {beams : Beams}

def azimuthDeg (b : beams.Beam) : Int := (b.val * 360 / beams.count : Nat)

structure LeBeamformer (beams : Beams) where
  fill : Nat := 0
  selected : beams.Beam := 0
  candidate : beams.Beam := 0
  candidateFrames : Nat := 0
  switches : Nat := 0
  /-- The beam a lock has pinned; `none` is automatic selection. -/
  locked : Option beams.Beam := none
deriving DecidableEq

def leBeamformerInit (beamCount : Nat) : Option ((beams : Beams) × LeBeamformer beams) :=
  if count : 0 < beamCount ∧ beamCount ≤ leBeamMaxBeams then
    some ⟨⟨beamCount, count.1, count.2⟩, {}⟩
  else none

def bestBeam (score : beams.Beam → ℚ) : beams.Beam :=
  (List.finRange beams.count).foldl (fun best b => if score best < score b then b else best) 0

def LeBeamformer.Rival (bf : LeBeamformer beams) (score : beams.Beam → ℚ) : Prop :=
  bestBeam score ≠ bf.selected ∧ beamActiveScore < score (bestBeam score) ∧
    score bf.selected * beamSwitchRatio < score (bestBeam score)

instance (bf : LeBeamformer beams) (score : beams.Beam → ℚ) : Decidable (bf.Rival score) :=
  inferInstanceAs (Decidable (_ ∧ _ ∧ _))

def processHop (bf : LeBeamformer beams) (score : beams.Beam → ℚ) : LeBeamformer beams :=
  match bf.locked with
  | some beam => { bf with selected := beam, candidateFrames := 0 }
  | none =>
      if bf.Rival score then
        if bestBeam score = bf.candidate then
          if beamSwitchHops ≤ bf.candidateFrames + 1 then
            { bf with
              selected := bestBeam score, candidateFrames := 0, switches := bf.switches + 1 }
          else { bf with candidateFrames := bf.candidateFrames + 1 }
        else { bf with candidate := bestBeam score, candidateFrames := 1 }
      else { bf with candidateFrames := 0 }

/-- One sample; the scores are those of the hop that it may complete. -/
def leBeamformerSample (bf : LeBeamformer beams) (score : beams.Beam → ℚ) : LeBeamformer beams :=
  if bf.fill + 1 = leBeamHop then { processHop bf score with fill := 0 }
  else { bf with fill := bf.fill + 1 }

def azimuthErr (a b : Int) : Int :=
  let err : Int := (a - b).natAbs
  if 180 < err then 360 - err else err

/-- The loop of `le_beamformer_lock`, over the best beam so far and its error. -/
def nearestBeam (azimuth : Int) : beams.Beam × Int :=
  (List.finRange beams.count).foldl
    (fun best b =>
      if azimuthErr (azimuthDeg b) azimuth < best.2 then (b, azimuthErr (azimuthDeg b) azimuth)
      else best)
    (0, 360)

def leBeamformerLock (bf : LeBeamformer beams) (azimuth : Int) : LeBeamformer beams :=
  if azimuth < 0 then { bf with locked := none }
  else
    let best := (nearestBeam (azimuth % 360)).1
    { bf with locked := some best, selected := best }

/-! ### What is asked of the selection -/

def arc (a b : Int) : Int := min ((a - b) % 360) ((b - a) % 360)

def Nearest (b : beams.Beam) (azimuth : Int) : Prop :=
  ∀ other : beams.Beam, arc (azimuthDeg b) azimuth ≤ arc (azimuthDeg other) azimuth

inductive Call (beams : Beams) where
  | sample (score : beams.Beam → ℚ)
  | lock (azimuth : Int)

structure Hop (beams : Beams) where
  score : beams.Beam → ℚ
  locked : Bool

/-- A hop without a lock that speaks for a switch from `s` to `c`. -/
def Hop.Favours (h : Hop beams) (s c : beams.Beam) : Prop :=
  h.locked = false ∧ (∀ b, h.score b ≤ h.score c) ∧ beamActiveScore < h.score c ∧
    h.score s * beamSwitchRatio < h.score c

structure Watched (beams : Beams) where
  device : LeBeamformer beams := {}
  /-- What the last lock asked for, unless it was released. -/
  request : Option Int := none
  /-- The hops since the selected beam became so, newest first. -/
  tenure : List (Hop beams) := []
  /-- A lock moved the selected beam, and the count of hops that it found goes on. -/
  stale : Bool := false

namespace Watched

def hop (w : Watched beams) (score : beams.Beam → ℚ) : Hop beams := ⟨score, w.request.isSome⟩

def step (w : Watched beams) : Call beams → Watched beams
  | .sample score =>
      let after := leBeamformerSample w.device score
      if w.device.fill + 1 = leBeamHop then
        { w with
          device := after
          tenure := if after.selected = w.device.selected then w.hop score :: w.tenure else []
          stale := w.stale && decide (w.device.candidateFrames < after.candidateFrames) }
      else { w with device := after }
  | .lock azimuth =>
      let after := leBeamformerLock w.device azimuth
      { device := after
        request := if azimuth < 0 then none else some azimuth
        tenure := if after.selected = w.device.selected then w.tenure else []
        stale :=
          if after.selected = w.device.selected then w.stale
          else decide (0 < w.device.candidateFrames) }

/-- A sample changes the selected beam only as the last of twelve hops that speak for it. -/
def Hysteresis (w : Watched beams) : Call beams → Prop
  | .sample score =>
      let s := w.device.selected
      let c := (w.step (.sample score)).device.selected
      c ≠ s → w.device.fill + 1 = leBeamHop ∧
        ∃ hops, hops.length = beamSwitchHops ∧ hops <+: w.hop score :: w.tenure ∧
          ∀ h ∈ hops, h.Favours s c
  | .lock _ => True

def AtRequest (w : Watched beams) : Prop :=
  ∀ azimuth ∈ w.request, Nearest w.device.selected azimuth

/-- The hop completes a count that was begun before a lock moved the selected beam. -/
def EndsStale (w : Watched beams) : Call beams → Prop
  | .sample score =>
      w.stale = true ∧ w.device.fill + 1 = leBeamHop ∧ w.request = none ∧
        w.device.Rival score ∧ bestBeam score = w.device.candidate ∧
        beamSwitchHops ≤ w.device.candidateFrames + 1
  | .lock _ => False

end Watched

/-- The selection over a run: its hysteresis, and the beam at the azimuth asked for. -/
def Steady (calls : List (Call beams)) : Prop :=
  Runs.Admits Watched.step (fun w c => w.Hysteresis c ∧ (w.step c).AtRequest) {} calls

theorem leBeamformerInit_count (beams : Beams) :
    leBeamformerInit beams.count = some ⟨beams, {}⟩ :=
  dif_pos ⟨beams.positive, beams.atMost⟩

/-! ### The beam of a score and of an azimuth -/

theorem foldl_best {α : Type} (f : α → ℚ) (l : List α) (first : α) :
    let best := l.foldl (fun best b => if f best < f b then b else best) first
    f first ≤ f best ∧ ∀ b ∈ l, f b ≤ f best := by
  induction l generalizing first with
  | nil => exact ⟨le_refl _, by simp⟩
  | cons b l ih =>
      obtain ⟨grown, rest⟩ := ih (if f first < f b then b else first)
      have both : f first ≤ f (if f first < f b then b else first) ∧
          f b ≤ f (if f first < f b then b else first) := by
        split
        case isTrue higher => exact ⟨higher.le, le_refl _⟩
        case isFalse lower => exact ⟨le_refl _, not_lt.mp lower⟩
      exact ⟨both.1.trans grown, List.forall_mem_cons.mpr ⟨both.2.trans grown, rest⟩⟩

theorem bestBeam_max (score : beams.Beam → ℚ) (b : beams.Beam) :
    score b ≤ score (bestBeam score) :=
  (foldl_best score (List.finRange beams.count) 0).2 b (List.mem_finRange b)

theorem foldl_nearest {α : Type} (err : α → Int) (l : List α) (first : α × Int) :
    let best := l.foldl (fun best b => if err b < best.2 then (b, err b) else best) first
    best.2 ≤ first.2 ∧ (∀ b ∈ l, best.2 ≤ err b) ∧ (best = first ∨ best.2 = err best.1) := by
  induction l generalizing first with
  | nil => exact ⟨le_refl _, by simp, .inl rfl⟩
  | cons b l ih =>
      obtain ⟨shrunk, rest, own⟩ := ih (if err b < first.2 then (b, err b) else first)
      by_cases nearer : err b < first.2
      · rw [if_pos nearer] at shrunk own
        simp only [List.foldl_cons, if_pos nearer] at rest ⊢
        refine ⟨shrunk.trans nearer.le, List.forall_mem_cons.mpr ⟨shrunk, rest⟩, .inr ?_⟩
        obtain same | own := own
        · rw [same]
        · exact own
      · rw [if_neg nearer] at shrunk own
        simp only [List.foldl_cons, if_neg nearer] at rest ⊢
        exact ⟨shrunk, List.forall_mem_cons.mpr ⟨shrunk.trans (not_lt.mp nearer), rest⟩, own⟩

theorem azimuthDeg_circle (b : beams.Beam) : 0 ≤ azimuthDeg b ∧ azimuthDeg b < 360 := by
  have below : b.val * 360 / beams.count < 360 := by
    refine (Nat.div_lt_iff_lt_mul beams.positive).mpr ?_
    have := b.isLt
    omega
  exact ⟨Int.natCast_nonneg _, Int.ofNat_lt.mpr below⟩

theorem azimuthErr_arc {a : Int} (low : 0 ≤ a) (high : a < 360) (azimuth : Int) :
    azimuthErr a (azimuth % 360) = arc a azimuth := by
  simp only [azimuthErr, arc]
  split <;> omega

theorem nearestBeam_nearest (azimuth : Int) :
    Nearest (nearestBeam (azimuth % 360) : beams.Beam × Int).1 azimuth := by
  intro other
  have err : ∀ b : beams.Beam, azimuthErr (azimuthDeg b) (azimuth % 360) =
      arc (azimuthDeg b) azimuth := fun b =>
    azimuthErr_arc (azimuthDeg_circle b).1 (azimuthDeg_circle b).2 azimuth
  obtain ⟨-, least, own⟩ := foldl_nearest
    (fun b : beams.Beam => azimuthErr (azimuthDeg b) (azimuth % 360))
    (List.finRange beams.count) (0, 360)
  simp only [err] at least own
  simp only [nearestBeam, err]
  have near := least other (List.mem_finRange other)
  obtain same | own := own
  · -- every beam is nearer than the error the loop begins with
    rw [same] at near
    simp only [arc] at near
    omega
  · exact own.symm.le.trans near

/-! ### One hop -/

/-- What a hop does to the selection. -/
inductive Hopped (bf : LeBeamformer beams) (score : beams.Beam → ℚ) :
    LeBeamformer beams → Prop where
  | pinned {beam : beams.Beam} : bf.locked = some beam →
      Hopped bf score { bf with selected := beam, candidateFrames := 0 }
  | quiet : bf.locked = none → ¬ bf.Rival score →
      Hopped bf score { bf with candidateFrames := 0 }
  | anew : bf.locked = none → bf.Rival score → bestBeam score ≠ bf.candidate →
      Hopped bf score { bf with candidate := bestBeam score, candidateFrames := 1 }
  | counted : bf.locked = none → bf.Rival score → bestBeam score = bf.candidate →
      bf.candidateFrames + 1 < beamSwitchHops →
      Hopped bf score { bf with candidateFrames := bf.candidateFrames + 1 }
  | switched : bf.locked = none → bf.Rival score → bestBeam score = bf.candidate →
      beamSwitchHops ≤ bf.candidateFrames + 1 →
      Hopped bf score
        { bf with selected := bestBeam score, candidateFrames := 0, switches := bf.switches + 1 }

theorem processHop_hopped (bf : LeBeamformer beams) (score : beams.Beam → ℚ) :
    Hopped bf score (processHop bf score) := by
  rw [processHop]
  split
  case h_1 beam pinned => exact .pinned pinned
  case h_2 free =>
    split
    case isFalse quiet => exact .quiet free quiet
    case isTrue rival =>
      split
      case isFalse other => exact .anew free rival other
      case isTrue same =>
        split
        case isTrue full => exact .switched free rival same full
        case isFalse few => exact .counted free rival same (not_le.mp few)

structure Counting (w : Watched beams) : Prop where
  few : w.device.candidateFrames < beamSwitchHops
  pinned : w.device.locked = w.request.map fun _ => w.device.selected
  near : w.AtRequest
  counted : w.stale = false → ∃ hops, hops.length = w.device.candidateFrames ∧
    hops <+: w.tenure ∧ ∀ h ∈ hops, h.Favours w.device.selected w.device.candidate
  stale : w.stale = true → w.tenure.length < w.device.candidateFrames

section Rules
variable {w : Watched beams} {score : beams.Beam → ℚ}

theorem Counting.free (counting : Counting w) (free : w.device.locked = none) :
    w.request = none := by
  rw [counting.pinned, Option.map_eq_none_iff] at free
  exact free

theorem LeBeamformer.Rival.favours (rival : w.device.Rival score) (free : w.request = none) :
    (w.hop score).Favours w.device.selected (bestBeam score) :=
  ⟨by rw [Watched.hop, free]; rfl, bestBeam_max score, rival.2⟩

theorem Counting.counts (counting : Counting w) (fresh : w.stale = false)
    (rival : w.device.Rival score) (free : w.device.locked = none)
    (same : bestBeam score = w.device.candidate) :
    ∃ hops, hops.length = w.device.candidateFrames + 1 ∧ hops <+: w.hop score :: w.tenure ∧
      ∀ h ∈ hops, h.Favours w.device.selected w.device.candidate := by
  obtain ⟨hops, length, newest, favour⟩ := counting.counted fresh
  refine ⟨w.hop score :: hops, by rw [List.length_cons, length], ?_, ?_⟩
  · exact (List.prefix_cons_inj _).mpr newest
  · exact List.forall_mem_cons.mpr ⟨same ▸ rival.favours (counting.free free), favour⟩

theorem step_hop (ends : w.device.fill + 1 = leBeamHop) :
    w.step (.sample score) =
      { w with
        device := { processHop w.device score with fill := 0 }
        tenure := if (processHop w.device score).selected = w.device.selected then
          w.hop score :: w.tenure else []
        stale := w.stale && decide
          (w.device.candidateFrames < (processHop w.device score).candidateFrames) } := by
  simp only [Watched.step, leBeamformerSample, if_pos ends]

theorem step_inside (inside : w.device.fill + 1 ≠ leBeamHop) :
    w.step (.sample score) = { w with device := { w.device with fill := w.device.fill + 1 } } := by
  simp only [Watched.step, leBeamformerSample, if_neg inside]

theorem Counting.hop (counting : Counting w) (ends : w.device.fill + 1 = leBeamHop) :
    Counting (w.step (.sample score)) := by
  rw [step_hop ends]
  have hopped := processHop_hopped w.device score
  generalize processHop w.device score = after at hopped
  have ⟨few, pinned, near, counted, stale⟩ := counting
  cases hopped with
  | @pinned beam locked =>
      have same : beam = w.device.selected := by
        rw [pinned] at locked
        obtain ⟨_, -, same⟩ := Option.map_eq_some_iff.mp locked
        exact same.symm
      subst same
      exact ⟨by simp [beamSwitchHops], pinned, near, fun _ => ⟨[], by simp⟩, by simp⟩
  | quiet free quiet =>
      exact ⟨by simp [beamSwitchHops], pinned, near, fun _ => ⟨[], by simp⟩, by simp⟩
  | anew free rival other =>
      have favours := rival.favours (counting.free free)
      refine ⟨by simp [beamSwitchHops], pinned, near, fun _ => ⟨[w.hop score], rfl, ?_⟩, ?_⟩
      · simp only [if_true, List.forall_mem_singleton]
        exact ⟨⟨w.tenure, rfl⟩, favours⟩
      · -- a stale count has hops
        intro on
        simp only [Bool.and_eq_true, decide_eq_true_eq] at on
        have := stale on.1
        omega
  | counted free rival same more =>
      refine ⟨more, pinned, near, fun fresh => ?_, fun on => ?_⟩
      · simp only [Nat.lt_add_one, decide_true, Bool.and_true] at fresh
        simp only [if_true]
        exact counting.counts fresh rival free same
      · simp only [Nat.lt_add_one, decide_true, Bool.and_true] at on
        simp only [if_true, List.length_cons]
        exact Nat.add_lt_add_right (stale on) 1
  | switched free rival same full =>
      have none := counting.free free
      refine ⟨by simp [beamSwitchHops], ?_, ?_, fun _ => ⟨[], by simp⟩, by simp⟩
      · simp only [free, none, Option.map_none]
      · simp [Watched.AtRequest, none]

theorem Counting.lock (counting : Counting w) (azimuth : Int) :
    Counting (w.step (.lock azimuth)) := by
  simp only [Watched.step, leBeamformerLock]
  by_cases released : azimuth < 0
  · simp only [if_pos released, if_true]
    exact ⟨counting.few, rfl, by simp [Watched.AtRequest], counting.counted, counting.stale⟩
  · simp only [if_neg released]
    have near : Nearest (nearestBeam (azimuth % 360) : beams.Beam × Int).1 azimuth :=
      nearestBeam_nearest azimuth
    generalize (nearestBeam (azimuth % 360) : beams.Beam × Int).1 = best at near
    have asked : Watched.AtRequest
        { w with
          device := { w.device with locked := some best, selected := best }
          request := some azimuth } := by
      intro other same
      obtain rfl := Option.some.inj same
      exact near
    by_cases same : best = w.device.selected
    · simp only [if_pos same]
      refine ⟨counting.few, rfl, asked, ?_, counting.stale⟩
      subst same
      exact counting.counted
    · simp only [if_neg same]
      refine ⟨counting.few, rfl, asked, fun none => ⟨[], ?_, by simp⟩, fun some => ?_⟩
      · rw [decide_eq_false_iff_not, Nat.not_lt, Nat.le_zero] at none
        exact none.symm
      · exact of_decide_eq_true some

theorem Counting.step (counting : Counting w) (c : Call beams) : Counting (w.step c) := by
  cases c with
  | lock azimuth => exact counting.lock azimuth
  | sample score =>
      by_cases ends : w.device.fill + 1 = leBeamHop
      · exact counting.hop ends
      · rw [step_inside ends]
        exact ⟨counting.few, counting.pinned, counting.near, counting.counted, counting.stale⟩

theorem Counting.hysteresis (counting : Counting w) (c : Call beams) :
    w.Hysteresis c ↔ ¬ w.EndsStale c := by
  cases c with
  | lock azimuth => simp [Watched.Hysteresis, Watched.EndsStale]
  | sample score =>
      simp only [Watched.Hysteresis, Watched.EndsStale]
      by_cases ends : w.device.fill + 1 = leBeamHop
      case neg => simp [step_inside ends, ends]
      rw [step_hop ends]
      have hopped := processHop_hopped w.device score
      generalize processHop w.device score = after at hopped
      cases hopped with
      | @pinned beam locked =>
          rw [counting.pinned] at locked
          obtain ⟨asked, request, same⟩ := Option.map_eq_some_iff.mp locked
          simp [same, request]
      | quiet free quiet => simp [quiet]
      | anew free rival other => simp [other]
      | counted free rival same more => simp [Nat.not_le.mpr more]
      | switched free rival same full =>
          have last : w.device.candidateFrames + 1 = beamSwitchHops :=
            Nat.le_antisymm counting.few full
          simp only [ends, counting.free free, rival, same, full, and_true, true_and]
          constructor
          · intro kept stale
            obtain ⟨hops, length, newest, -⟩ := kept (same ▸ rival.1)
            have short := newest.length_le
            have few := counting.stale stale
            rw [List.length_cons] at short
            omega
          · intro fresh _
            obtain ⟨hops, length, newest, favour⟩ :=
              counting.counts (Bool.eq_false_iff.mpr fresh) rival free same
            exact ⟨hops, length.trans last, newest, favour⟩

end Rules

theorem Counting.fresh : Counting ({} : Watched beams) :=
  ⟨by simp [beamSwitchHops], rfl, by simp [Watched.AtRequest], fun _ => ⟨[], by simp⟩, by simp⟩

/--
A run keeps the hysteresis and the azimuth asked for exactly when no hop completes a count
that was begun before a lock moved the selected beam.
-/
theorem steady_iff (beams : Beams) (calls : List (Call beams)) :
    Steady calls ↔ Runs.Admits Watched.step (fun w c => ¬ w.EndsStale c) {} calls := by
  constructor
  · exact Runs.admits_within Watched.step (fun w c counting _ => counting.step c)
      (fun w c counting kept => (counting.hysteresis c).mp kept.1) Counting.fresh
  · exact Runs.admits_within Watched.step (fun w c counting _ => counting.step c)
      (fun w c counting kept => ⟨(counting.hysteresis c).mpr kept, (counting.step c).near⟩)
      Counting.fresh

/-! ### A rival counted against another beam -/

def Watched.full (w : Watched beams) : Watched beams :=
  { w with device := { w.device with fill := leBeamHop - 1 } }

theorem run_inside {w : Watched beams} {score : beams.Beam → ℚ} {k : Nat}
    (room : w.device.fill + k < leBeamHop) :
    Runs.run Watched.step w (List.replicate k (.sample score)) =
      { w with device := { w.device with fill := w.device.fill + k } } := by
  induction k generalizing w with
  | zero => rfl
  | succ k ih =>
      have inside : w.device.fill + 1 ≠ leBeamHop := by omega
      rw [List.replicate_succ, Runs.run_cons, step_inside inside, ih (by simp only; omega)]
      simp only [Nat.add_assoc, Nat.add_comm 1 k]

theorem run_hop {w : Watched beams} {score : beams.Beam → ℚ} (start : w.device.fill = 0) :
    Runs.run Watched.step w (List.replicate leBeamHop (.sample score)) =
      w.full.step (.sample score) := by
  have split : leBeamHop = leBeamHop - 1 + 1 := rfl
  rw [split, List.replicate_succ', Runs.run_concat, run_inside (by rw [start]; decide), start,
    Nat.zero_add, Watched.full]

theorem run_hops {w : Watched beams} {score : beams.Beam → ℚ} (n : Nat)
    (start : w.device.fill = 0) :
    Runs.run Watched.step w (List.replicate (n * leBeamHop) (.sample score)) =
      (fun w => w.full.step (.sample score))^[n] w := by
  induction n generalizing w with
  | zero => rw [Nat.zero_mul]; rfl
  | succ n ih =>
      have ends : w.full.device.fill + 1 = leBeamHop := rfl
      rw [Nat.succ_mul, Nat.add_comm, List.replicate_add, Runs.run_append, run_hop start,
        ih (by rw [step_hop ends]), Function.iterate_succ_apply]

def threeBeams : Beams := ⟨3, by decide, by decide⟩

/-- Talkers at 120 and, to the given strength, at 240 degrees. -/
def talkers (second : ℚ) : threeBeams.Beam → ℚ := ![1, 4, second]

/--
Eleven hops count for the beam at 120 degrees, against the one at 0. None of them would count
against the one at 240, which is locked and released before the next hop.
-/
def touched : List (Call threeBeams) :=
  List.replicate (11 * leBeamHop) (.sample (talkers 3)) ++ [.lock 240, .lock (-1)] ++
    List.replicate (leBeamHop - 1) (.sample (talkers 2))

instance (w : Watched threeBeams) (score : threeBeams.Beam → ℚ) :
    Decidable (w.EndsStale (.sample score)) :=
  inferInstanceAs (Decidable (_ ∧ _ ∧ _ ∧ _ ∧ _ ∧ _))

theorem touched_endsStale :
    (Runs.run Watched.step ({} : Watched threeBeams) touched).EndsStale (.sample (talkers 2)) := by
  rw [touched, Runs.run_append, Runs.run_append, run_hops 11 rfl, run_inside (by decide +kernel)]
  decide +kernel

/-- One hop that speaks for the new beam against the old one is enough. -/
theorem touched_switches_early :
    ¬ ∀ (beams : Beams) (calls : List (Call beams)),
      (∀ score, .sample score ∈ calls → ∀ b, 0 < score b) → Steady calls := by
  intro law
  have start : Counting ({} : Watched threeBeams) := Counting.fresh
  have counting := Runs.run_invariant_always Watched.step (fun w c counting => counting.step c)
    start touched
  have positive : ∀ b, 0 < talkers 3 b ∧ 0 < talkers 2 b := by decide +kernel
  have steady := law threeBeams (touched ++ [.sample (talkers 2)]) (by
    intro score inside
    simp only [touched, List.mem_append, List.mem_replicate, List.mem_cons, List.not_mem_nil,
      Call.sample.injEq, or_false, reduceCtorEq] at inside
    obtain (⟨-, rfl⟩ | ⟨-, rfl⟩) | rfl := inside
    · exact fun b => (positive b).1
    · exact fun b => (positive b).2
    · exact fun b => (positive b).2)
  rw [Steady, Runs.admits_concat] at steady
  exact (counting.hysteresis _).mp steady.2.1 touched_endsStale

/-! ### The pace of the switches -/

namespace Watched

def switched (w : Watched beams) : Call beams → Nat
  | .sample score =>
      if (w.step (.sample score)).device.selected = w.device.selected then 0 else 1
  | .lock _ => 0

def freeHop (w : Watched beams) : Call beams → Nat
  | .sample _ => if w.device.fill + 1 = leBeamHop ∧ w.device.locked = none then 1 else 0
  | .lock _ => 0

def counted (what : Watched beams → Call beams → Nat) : Watched beams → List (Call beams) → Nat
  | _, [] => 0
  | w, c :: calls => what w c + counted what (w.step c) calls

theorem freeHop_samples (w : Watched beams) (c : Call beams) :
    leBeamHop * w.freeHop c + (w.step c).device.fill ≤ w.device.fill + 1 := by
  cases c with
  | lock azimuth =>
      simp only [freeHop, step, leBeamformerLock]
      split
      · exact (Nat.zero_add _).trans_le (Nat.le_succ _)
      · exact (Nat.zero_add _).trans_le (Nat.le_succ _)
  | sample score =>
      by_cases ends : w.device.fill + 1 = leBeamHop
      · rw [step_hop ends, freeHop]
        split
        · exact ends.ge
        · exact Nat.zero_le _
      · rw [step_inside ends, freeHop, if_neg (fun free => ends free.1)]
        exact (Nat.zero_add _).le

end Watched

theorem Counting.paced {w : Watched beams} (counting : Counting w) (c : Call beams) :
    beamSwitchHops * w.switched c + (w.step c).device.candidateFrames ≤
      w.device.candidateFrames + w.freeHop c := by
  cases c with
  | lock azimuth =>
      simp only [Watched.switched, Watched.freeHop, Watched.step, leBeamformerLock]
      split
      · exact (Nat.zero_add _).le
      · exact (Nat.zero_add _).le
  | sample score =>
      by_cases ends : w.device.fill + 1 = leBeamHop
      case neg =>
        rw [Watched.switched, step_inside ends, if_pos rfl]
        exact (Nat.zero_add _).trans_le (Nat.le_add_right _ _)
      simp only [Watched.switched, Watched.freeHop, step_hop ends, ends, true_and]
      have hopped := processHop_hopped w.device score
      generalize processHop w.device score = after at hopped
      cases hopped with
      | @pinned beam locked =>
          have pinned := counting.pinned
          rw [locked] at pinned
          obtain ⟨_, -, same⟩ := Option.map_eq_some_iff.mp pinned.symm
          rw [if_pos same.symm]
          exact Nat.zero_le _
      | quiet free quiet => simp
      | anew free rival other => simp [free]
      | counted free rival same more => simp [free]
      | switched free rival same full =>
          simp only [if_neg rival.1, free, if_true]
          exact full

/--
Whatever is locked and released in between, twelve hops without a lock pay for each switch,
and 128 samples for each of these.
-/
theorem switches_paced (calls : List (Call beams)) :
    beamSwitchHops * Watched.counted Watched.switched ({} : Watched beams) calls ≤
        Watched.counted Watched.freeHop ({} : Watched beams) calls ∧
      leBeamHop * Watched.counted Watched.freeHop ({} : Watched beams) calls ≤ calls.length := by
  have run (w : Watched beams) (counting : Counting w) (calls : List (Call beams)) :
      beamSwitchHops * Watched.counted Watched.switched w calls ≤
          w.device.candidateFrames + Watched.counted Watched.freeHop w calls ∧
        leBeamHop * Watched.counted Watched.freeHop w calls ≤ w.device.fill + calls.length := by
    induction calls generalizing w with
    | nil => exact ⟨Nat.zero_le _, Nat.zero_le _⟩
    | cons c calls ih =>
        obtain ⟨hops, samples⟩ := ih (w.step c) (counting.step c)
        have paced := counting.paced c
        have filled := w.freeHop_samples c
        simp only [Watched.counted, Nat.mul_add, List.length_cons]
        omega
  simpa using run {} Counting.fresh calls

end LibreEcho.Mic
