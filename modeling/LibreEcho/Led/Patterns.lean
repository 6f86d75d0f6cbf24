import LibreEcho.Lib.ByteText
import LibreEcho.Lib.Runs

/-!
Who holds the ring of `adapter/ledd.c`: the pattern that is shown, the one it covers, and the
mute indicator under both.

The daemon keeps two owners in two groups of fields. Seen from outside they are a stack of at
most two layers, above an indicator that comes back when the last layer goes.
-/
namespace LibreEcho.Led
open ByteText

structure Colour where
  r : Nat := 0
  g : Nat := 0
  b : Nat := 0
  brightness : Nat := 0

/-- `PATTERN_NONE` is the absence of a pattern. -/
inductive PatternKind where
  | pulse | flash | solid
deriving DecidableEq

structure Pattern where
  kind : PatternKind := .solid
  colour : Colour := {}
  repeats : Nat := 0

/-- `isalnum`, `_` or `-`. -/
def ownerByte (c : UInt8) : Bool :=
  (0x30 ≤ c && c ≤ 0x39) || (0x41 ≤ c && c ≤ 0x5a) || (0x61 ≤ c && c ≤ 0x7a) || c == 0x5f ||
    c == 0x2d

def copyPatternOwner (source : List UInt8) : List UInt8 :=
  (source.take 31).takeWhile ownerByte

def muteOwner : List UInt8 := ascii "mute"

/-- The fields of `daemon_context` for patterns; an absent owner is empty. -/
structure PatternContext where
  active : Bool := false
  pattern : Pattern := {}
  owner : List UInt8 := []
  previous : Option Pattern := none
  previousOwner : List UInt8 := []
  muteActive : Bool := false
  muteColour : Colour := {}

namespace PatternContext

def restore (ctx : PatternContext) (previous : Pattern) : PatternContext :=
  { ctx with
    pattern := previous
    owner := copyPatternOwner ctx.previousOwner
    previous := none
    previousOwner := [] }

/-- The head of `stop_pattern`. -/
def unmute (ctx : PatternContext) (owner : List UInt8) : PatternContext :=
  if owner = [] ∨ owner = muteOwner then { ctx with muteActive := false } else ctx

/-- The rest of `stop_pattern`. -/
def release (ctx : PatternContext) (owner : List UInt8) : PatternContext :=
  if ctx.active = false then ctx
  else if owner ≠ [] ∧ ctx.owner ≠ owner then
    if ctx.previousOwner = owner then { ctx with previous := none, previousOwner := [] } else ctx
  else
    match if owner ≠ [] then ctx.previous else none with
    | some previous => ctx.restore previous
    | none =>
        if owner ≠ [] ∧ ctx.muteActive = true then
          { ctx with
            pattern := ⟨.solid, ctx.muteColour, 0⟩, owner := copyPatternOwner muteOwner }
        else { ctx with active := false, previous := none, owner := [], previousOwner := [] }

def stopPattern (ctx : PatternContext) (owner : List UInt8) : PatternContext :=
  (ctx.unmute owner).release owner

def startPattern (ctx : PatternContext) (pattern : Pattern) (owner : List UInt8) :
    PatternContext :=
  let ctx :=
    if owner = muteOwner then { ctx with muteActive := true, muteColour := pattern.colour } else ctx
  if owner = muteOwner ∧ ctx.active = true ∧ ctx.owner ≠ muteOwner then
    if ctx.previousOwner = muteOwner then
      { ctx with previous := ctx.previous.map ({ · with colour := pattern.colour }) }
    else ctx
  else
    let ctx :=
      if ctx.active = true then
        if owner = [] ∨ ctx.owner ≠ owner then
          { ctx with previous := ctx.pattern, previousOwner := copyPatternOwner ctx.owner }
        else ctx
      else { ctx with previous := none, previousOwner := [] }
    { ctx with active := true, pattern := pattern, owner := copyPatternOwner owner }

/-- `update_pattern` where a flash has run its repeats. -/
def endFlash (ctx : PatternContext) : PatternContext :=
  if ctx.active = true ∧ ctx.pattern.kind = .flash ∧ ctx.pattern.repeats ≠ 0 then
    match ctx.previous with
    | some previous => ctx.restore previous
    | none => ctx.stopPattern (copyPatternOwner ctx.owner)
  else ctx

end PatternContext

/-! ### The stack it is meant to be -/

structure Layer where
  owner : List UInt8
  pattern : Pattern

def Layer.other (owner : List UInt8) (l : Layer) : Bool :=
  decide (owner = [] ∨ l.owner ≠ owner)

/-- The layers, topmost first, and the colour of the mute indicator. -/
structure Ring where
  layers : List Layer := []
  muted : Option Colour := none

namespace Ring

def muteLayer (colour : Colour) : Layer := ⟨muteOwner, ⟨.solid, colour, 0⟩⟩

def without (ring : Ring) (owner : List UInt8) : Ring :=
  let muted := if owner = muteOwner then none else ring.muted
  let left := ring.layers.filter (·.owner ≠ owner)
  { layers := if left = [] ∧ ring.layers ≠ [] then (muted.map muteLayer).toList else left
    muted := muted }

def stop (ring : Ring) (owner : List UInt8) : Ring :=
  if owner = [] then {} else ring.without owner

def cover (ring : Ring) (owner : List UInt8) (pattern : Pattern) : Ring :=
  { ring with layers := ⟨owner, pattern⟩ :: (ring.layers.filter (Layer.other owner)).take 1 }

/-- The mute indicator lies under the layers of others, and changes its colour there. -/
def mute (ring : Ring) (pattern : Pattern) : Ring :=
  { muted := pattern.colour
    layers :=
      if (ring.layers.head?.map Layer.owner).getD muteOwner = muteOwner then
        ⟨muteOwner, pattern⟩ :: ring.layers.tail
      else ring.layers.map fun l =>
        if l.owner = muteOwner then
          { l with pattern := { l.pattern with colour := pattern.colour } }
        else l }

def start (ring : Ring) (pattern : Pattern) (owner : List UInt8) : Ring :=
  if owner = muteOwner then ring.mute pattern else ring.cover owner pattern

def endFlash (ring : Ring) : Ring :=
  match ring.layers with
  | [] => ring
  | top :: rest =>
      if top.pattern.kind = .flash ∧ top.pattern.repeats ≠ 0 then
        if rest = [] then ring.stop top.owner else { ring with layers := rest }
      else ring

end Ring

namespace PatternContext

def ring (ctx : PatternContext) : Ring where
  layers :=
    if ctx.active = true then
      ⟨ctx.owner, ctx.pattern⟩ :: (ctx.previous.map (⟨ctx.previousOwner, ·⟩)).toList
    else []
  muted := if ctx.muteActive = true then some ctx.muteColour else none

structure Sound (ctx : PatternContext) : Prop where
  plain : copyPatternOwner ctx.owner = ctx.owner
  previousPlain : copyPatternOwner ctx.previousOwner = ctx.previousOwner
  bare : ctx.previous = none → ctx.previousOwner = []
  /-- A named owner has one layer. -/
  apart : ctx.owner ≠ [] → ctx.previousOwner ≠ ctx.owner
  idle : ctx.active = false → ctx.previous = none

section Rules
variable {ctx : PatternContext} {owner : List UInt8}

theorem copy_nil : copyPatternOwner [] = [] := rfl

theorem copy_mute : copyPatternOwner muteOwner = muteOwner := by decide

theorem mute_named : muteOwner ≠ [] := by decide

theorem Sound.restore {previous : Pattern} (sound : Sound ctx) :
    Sound (ctx.restore previous) :=
  ⟨by rw [PatternContext.restore, sound.previousPlain, sound.previousPlain], copy_nil,
    fun _ => rfl, fun named => named.symm, fun _ => rfl⟩

theorem restore_layers {previous : Pattern} (sound : Sound ctx) (active : ctx.active = true) :
    (ctx.restore previous).ring =
      { ctx.ring with layers := [⟨ctx.previousOwner, previous⟩] } := by
  simp [PatternContext.restore, ring, active, sound.previousPlain]

theorem Sound.unmute (sound : Sound ctx) (owner : List UInt8) : Sound (ctx.unmute owner) := by
  rw [PatternContext.unmute]
  split
  · exact ⟨sound.plain, sound.previousPlain, sound.bare, sound.apart, sound.idle⟩
  · exact sound

theorem unmute_ring (ctx : PatternContext) (owner : List UInt8) :
    (ctx.unmute owner).ring =
      { ctx.ring with
        muted := if owner = [] ∨ owner = muteOwner then none else ctx.ring.muted } := by
  rw [PatternContext.unmute]
  by_cases own : owner = [] ∨ owner = muteOwner
  · rw [if_pos own, if_pos own]
    rfl
  · rw [if_neg own, if_neg own]

theorem Sound.dark (ctx : PatternContext) :
    Sound { ctx with active := false, previous := none, owner := [], previousOwner := [] } :=
  ⟨rfl, rfl, fun _ => rfl, fun named => absurd rfl named, fun _ => rfl⟩

theorem Sound.release (sound : Sound ctx) (named : owner ≠ []) :
    Sound (ctx.release owner) ∧ (ctx.release owner).ring =
      { ctx.ring with
        layers :=
          let left := ctx.ring.layers.filter (·.owner ≠ owner)
          if left = [] ∧ ctx.ring.layers ≠ [] then
            (ctx.ring.muted.map Ring.muteLayer).toList
          else left } := by
  rw [PatternContext.release]
  cases active : ctx.active with
  | false => simpa [active, ring] using sound
  | true =>
      by_cases own : ctx.owner = owner
      · cases previous : ctx.previous with
        | some covered =>
            have other : ctx.previousOwner ≠ owner := own ▸ sound.apart (own ▸ named)
            simp only [Bool.true_eq_false, if_false, named, own, ne_eq, not_false_eq_true,
              not_true, and_false, if_true]
            rw [restore_layers sound active]
            exact ⟨sound.restore, by simp [ring, active, previous, own, other]⟩
        | none =>
            cases muted : ctx.muteActive with
            | true =>
                simp only [Bool.true_eq_false, if_false, named, own, ne_eq, not_false_eq_true,
                  not_true, and_false, if_true, true_and]
                refine ⟨⟨?_, sound.previousPlain, fun _ => sound.bare previous, fun _ => ?_, by rintro ⟨⟩⟩, ?_⟩
                · rw [copy_mute, copy_mute]
                · rw [sound.bare previous, copy_mute]
                  exact mute_named.symm
                · simp [ring, active, previous, own, muted, copy_mute, Ring.muteLayer]
            | false =>
                simp only [Bool.true_eq_false, Bool.false_eq_true, if_false, named, own, ne_eq,
                  not_false_eq_true, not_true, and_false, if_true]
                exact ⟨Sound.dark { ctx with muteActive := false }, by
                  simp [ring, active, previous, own, muted]⟩
      · by_cases below : ctx.previousOwner = owner
        · simp only [Bool.true_eq_false, if_false, named, own, ne_eq, not_false_eq_true, and_true,
            if_true, below]
          refine ⟨⟨sound.plain, rfl, fun _ => rfl, fun some => some.symm, fun _ => rfl⟩, ?_⟩
          cases previous : ctx.previous <;> simp [ring, active, previous, own, below]
        · simp only [Bool.true_eq_false, if_false, named, own, ne_eq, not_false_eq_true, and_true,
            if_true, below]
          refine ⟨sound, ?_⟩
          cases previous : ctx.previous <;> simp [ring, active, previous, own, below]

theorem Sound.stopPattern (sound : Sound ctx) (owner : List UInt8) :
    Sound (ctx.stopPattern owner) ∧ (ctx.stopPattern owner).ring = ctx.ring.stop owner := by
  by_cases unnamed : owner = []
  · rw [unnamed, Ring.stop, if_pos rfl, PatternContext.stopPattern, PatternContext.release]
    cases active : (ctx.unmute []).active with
    | false =>
        simp only [if_true]
        refine ⟨sound.unmute [], ?_⟩
        have shut : ctx.active = false := by simpa [PatternContext.unmute] using active
        rw [unmute_ring, if_pos (.inl rfl)]
        simp [ring, shut]
    | true =>
        simp only [Bool.true_eq_false, if_false, ne_eq, not_true, false_and]
        exact ⟨Sound.dark _, by simp [ring, PatternContext.unmute]⟩
  · obtain ⟨kept, same⟩ := (sound.unmute owner).release unnamed
    rw [PatternContext.stopPattern, Ring.stop, if_neg unnamed]
    refine ⟨kept, same.trans ?_⟩
    simp only [unmute_ring, Ring.without, unnamed, false_or]

theorem Sound.startMute (sound : Sound ctx) (pattern : Pattern) :
    Sound (ctx.startPattern pattern muteOwner) ∧
      (ctx.startPattern pattern muteOwner).ring = ctx.ring.mute pattern := by
  simp only [PatternContext.startPattern, if_true, true_and, mute_named, false_or]
  cases active : ctx.active with
  | false =>
      simp only [Bool.false_eq_true, false_and, if_false]
      refine ⟨⟨?_, copy_nil, fun _ => rfl, fun named => named.symm, by rintro ⟨⟩⟩, ?_⟩
      · rw [copy_mute, copy_mute]
      · simp [ring, active, Ring.mute, copy_mute]
  | true =>
      by_cases own : ctx.owner = muteOwner
      · simp only [true_and, own, ne_eq, not_true, if_false, if_true]
        have apart := sound.apart (own ▸ mute_named)
        refine ⟨⟨?_, sound.previousPlain, sound.bare, fun _ => ?_, by rintro ⟨⟩⟩, ?_⟩
        · rw [copy_mute, copy_mute]
        · rw [copy_mute, ← own]
          exact apart
        · cases previous : ctx.previous <;> simp [ring, active, previous, own, Ring.mute, copy_mute]
      · simp only [true_and, own, ne_eq, not_false_eq_true, if_true]
        split
        case isTrue below =>
          have some : ctx.previous ≠ none := fun none => mute_named (below ▸ sound.bare none)
          obtain ⟨covered, previous⟩ := Option.ne_none_iff_exists'.mp some
          refine ⟨⟨sound.plain, sound.previousPlain, by simp [previous], sound.apart,
            by rintro ⟨⟩⟩, ?_⟩
          simp [ring, active, previous, own, below, Ring.mute]
        case isFalse other =>
          refine ⟨⟨sound.plain, sound.previousPlain, sound.bare, sound.apart, by rintro ⟨⟩⟩, ?_⟩
          cases previous : ctx.previous <;> simp [ring, active, previous, own, other, Ring.mute]

theorem Sound.startCover (sound : Sound ctx) (plain : copyPatternOwner owner = owner)
    (other : owner ≠ muteOwner) (pattern : Pattern) :
    Sound (ctx.startPattern pattern owner) ∧
      (ctx.startPattern pattern owner).ring = ctx.ring.cover owner pattern := by
  simp only [PatternContext.startPattern, other, false_and, if_false, plain]
  cases active : ctx.active with
  | false =>
      simp only [Bool.false_eq_true, if_false]
      refine ⟨⟨plain, copy_nil, fun _ => rfl, fun named => named.symm, by rintro ⟨⟩⟩, ?_⟩
      simp [ring, active, Ring.cover]
  | true =>
      by_cases covers : owner = [] ∨ ctx.owner ≠ owner
      · simp only [if_true, if_pos covers, sound.plain]
        refine ⟨⟨plain, sound.plain, by rintro ⟨⟩, fun named => ?_, by rintro ⟨⟩⟩, ?_⟩
        · exact covers.resolve_left named
        · have kept : Layer.other owner ⟨ctx.owner, ctx.pattern⟩ = true := decide_eq_true covers
          simp only [ring, active, if_true, Ring.cover]
          rw [List.filter_cons_of_pos kept, List.take_succ_cons, List.take_zero]
          rfl
      · simp only [if_true, if_neg covers]
        obtain ⟨named, own⟩ := not_or.mp covers
        rw [not_not] at own
        have apart := sound.apart (own.symm ▸ named)
        refine ⟨⟨plain, sound.previousPlain, sound.bare, fun _ => own ▸ apart, by rintro ⟨⟩⟩, ?_⟩
        rw [own] at apart
        cases previous : ctx.previous <;>
          simp [ring, active, previous, own, named, apart, Ring.cover, Layer.other]

theorem Sound.endFlash (sound : Sound ctx) :
    Sound ctx.endFlash ∧ ctx.endFlash.ring = ctx.ring.endFlash := by
  rw [PatternContext.endFlash]
  cases active : ctx.active with
  | false =>
      simp only [Bool.false_eq_true, false_and, if_false]
      exact ⟨sound, by simp [ring, active, Ring.endFlash]⟩
  | true =>
      by_cases done : ctx.pattern.kind = .flash ∧ ctx.pattern.repeats ≠ 0
      · simp only [true_and, if_pos done]
        cases previous : ctx.previous with
        | some covered =>
            refine ⟨sound.restore, ?_⟩
            rw [restore_layers sound active]
            simp [ring, active, previous, Ring.endFlash, done]
        | none =>
            obtain ⟨kept, same⟩ := sound.stopPattern ctx.owner
            rw [sound.plain]
            refine ⟨kept, same.trans ?_⟩
            simp [ring, active, previous, Ring.endFlash, done]
      · simp only [true_and, if_neg done]
        exact ⟨sound, by simp [ring, active, Ring.endFlash, done]⟩

end Rules
end PatternContext

/-- An owner's name that is stored as it is; the empty one is no owner. -/
structure Owner where
  name : List UInt8
  plain : copyPatternOwner name = name

inductive PatternCall where
  | start (pattern : Pattern) (owner : Owner)
  | stop (owner : Owner)
  | endFlash

def PatternContext.step (ctx : PatternContext) : PatternCall → PatternContext
  | .start pattern owner => ctx.startPattern pattern owner.name
  | .stop owner => ctx.stopPattern owner.name
  | .endFlash => ctx.endFlash

def Ring.step (ring : Ring) : PatternCall → Ring
  | .start pattern owner => ring.start pattern owner.name
  | .stop owner => ring.stop owner.name
  | .endFlash => ring.endFlash

theorem PatternContext.Sound.step {ctx : PatternContext} (sound : Sound ctx) (c : PatternCall) :
    Sound (ctx.step c) ∧ (ctx.step c).ring = ctx.ring.step c := by
  cases c with
  | start pattern owner =>
      simp only [PatternContext.step, Ring.step, Ring.start]
      by_cases mute : owner.name = muteOwner
      · rw [if_pos mute, mute]
        exact sound.startMute pattern
      · rw [if_neg mute]
        exact sound.startCover owner.plain mute pattern
  | stop owner => exact sound.stopPattern owner.name
  | endFlash => exact sound.endFlash

structure Ring.Kept (ring : Ring) : Prop where
  two : ring.layers.length ≤ 2
  apart : ring.layers.Pairwise fun l below => l.owner ≠ [] → below.owner ≠ l.owner
  /-- A muted ring is never dark. -/
  lit : ring.muted.isSome = true → ring.layers ≠ []
  colour : ∀ l ∈ ring.layers, l.owner = muteOwner → ring.muted = some l.pattern.colour

theorem Ring.Kept.without {ring : Ring} (kept : ring.Kept) (owner : List UInt8) :
    (ring.without owner).Kept := by
  simp only [Ring.without]
  by_cases last : ring.layers.filter (·.owner ≠ owner) = [] ∧ ring.layers ≠ []
  · simp only [if_pos last]
    generalize (if owner = muteOwner then none else ring.muted) = muted
    cases muted with
    | none => exact ⟨by simp, by simp, by simp, by simp⟩
    | some colour => exact ⟨by simp, by simp, by simp, by simp [Ring.muteLayer]⟩
  · simp only [if_neg last]
    refine ⟨(List.length_filter_le _ _).trans kept.two, kept.apart.filter _, fun muted none => ?_,
      fun l inside mute => ?_⟩
    · have bare : ring.layers = [] := by_contra fun some => last ⟨none, some⟩
      split at muted
      · cases muted
      · exact kept.lit muted bare
    · obtain ⟨inside, other⟩ := List.mem_filter.mp inside
      rw [if_neg fun own => of_decide_eq_true other (mute.trans own.symm)]
      exact kept.colour l inside mute

theorem Ring.Kept.stop {ring : Ring} (kept : ring.Kept) (owner : List UInt8) :
    (ring.stop owner).Kept := by
  rw [Ring.stop]
  split
  · exact ⟨by simp, by simp, by simp, by simp⟩
  · exact kept.without owner

theorem Ring.Kept.mute {ring : Ring} (kept : ring.Kept) (pattern : Pattern) :
    (ring.mute pattern).Kept := by
  rw [Ring.mute]
  cases layers : ring.layers with
  | nil => exact ⟨by simp, by simp, by simp, by simp⟩
  | cons top rest =>
      obtain ⟨below, apart⟩ := List.pairwise_cons.mp (layers ▸ kept.apart)
      have two : (top :: rest).length ≤ 2 := layers ▸ kept.two
      simp only [List.head?_cons, Option.map_some, Option.getD_some, List.tail_cons]
      split
      case isTrue own =>
        have other : ∀ l ∈ rest, l.owner ≠ muteOwner := fun l inside same =>
          below l inside (own ▸ PatternContext.mute_named) (same.trans own.symm)
        exact ⟨two, List.pairwise_cons.mpr ⟨fun l inside _ => other l inside, apart⟩, by simp,
          List.forall_mem_cons.mpr ⟨fun _ => rfl, fun l inside same =>
            absurd same (other l inside)⟩⟩
      case isFalse =>
        have owner : ∀ l : Layer, (if l.owner = muteOwner then
            { l with pattern := { l.pattern with colour := pattern.colour } } else l).owner =
              l.owner := fun l => by split <;> rfl
        refine ⟨by rw [List.length_map]; exact two, ?_, by simp, ?_⟩
        · refine List.pairwise_map.mpr ((layers ▸ kept.apart).imp fun apart => ?_)
          rw [owner, owner]
          exact apart
        · refine List.forall_mem_map.mpr fun l inside mute => ?_
          rw [owner] at mute
          rw [if_pos mute]

theorem Ring.Kept.step {ring : Ring} (kept : ring.Kept) (c : PatternCall) : (ring.step c).Kept := by
  cases c with
  | start pattern owner =>
      simp only [Ring.step, Ring.start]
      split
      case isTrue => exact kept.mute pattern
      case isFalse other =>
        have inside : ∀ l ∈ (ring.layers.filter (Layer.other owner.name)).take 1,
            l ∈ ring.layers ∧ (owner.name = [] ∨ l.owner ≠ owner.name) := fun l inside =>
          (List.mem_filter.mp (List.mem_of_mem_take inside)).imp_right of_decide_eq_true
        refine ⟨?_, List.pairwise_cons.mpr ⟨fun l below named => ?_, ?_⟩, by simp [Ring.cover],
          List.forall_mem_cons.mpr ⟨fun mute => absurd mute other, fun l below => ?_⟩⟩
        · exact Nat.succ_le_succ (List.length_take_le _ _)
        · exact (inside l below).2.resolve_left named
        · exact (kept.apart.filter _).sublist (List.take_sublist _ _)
        · exact kept.colour l (inside l below).1
  | stop owner => exact kept.stop owner.name
  | endFlash =>
      simp only [Ring.step, Ring.endFlash]
      cases layers : ring.layers with
      | nil => exact kept
      | cons top rest =>
          dsimp only
          split_ifs with done bare
          · exact kept.stop top.owner
          · have apart := (List.pairwise_cons.mp (layers ▸ kept.apart)).2
            have two : (top :: rest).length ≤ 2 := layers ▸ kept.two
            exact ⟨(Nat.le_succ _).trans two, apart, fun _ => bare,
              fun l inside => kept.colour l (layers ▸ List.mem_cons_of_mem _ inside)⟩
          · exact kept

end LibreEcho.Led
