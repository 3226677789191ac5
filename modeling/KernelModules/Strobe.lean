import Mathlib.Data.List.Nodup
import Mathlib.Logic.Function.Basic

/-!
# Lines with a strobe

A bundle of wires, each high or low, driven one wire at a time. A receiver looks at the
wires at one moment only: when the strobe wire falls.

* `drive` — the levels after a list of assignments;
* `latches` — the levels the receiver sees, one snapshot for each falling edge;
* `Settled` — no wire but the strobe is touched while the strobe is high.

A *frame* is a list of assignments to distinct wires followed by one pulse on the strobe:
it is latched exactly once, with the assigned levels (`latches_frame`), and frames one
after the other are latched one after the other (`latches_frames`).
-/

namespace KernelModules

namespace Strobe

universe u v w

/-- One wire is set to a level. -/
structure Assign (ω : Type u) where
  /-- the wire -/
  wire : ω
  /-- high or low -/
  level : Bool

variable {ω : Type u} [DecidableEq ω]

/-- The levels of all wires after one assignment. -/
def set (v : ω → Bool) (e : Assign ω) : ω → Bool := Function.update v e.wire e.level

/-- The levels of all wires after a list of assignments. -/
def drive (v : ω → Bool) (es : List (Assign ω)) : ω → Bool := es.foldl set v

/-- The levels the receiver sees at each falling edge of the strobe. -/
def latches (strobe : ω) : (ω → Bool) → List (Assign ω) → List (ω → Bool)
  | _, [] => []
  | v, e :: es =>
    let seen := if e.wire = strobe ∧ v strobe = true ∧ e.level = false then [v] else []
    seen ++ latches strobe (set v e) es

/-- No wire but the strobe is set while the strobe is high. -/
def Settled (strobe : ω) : (ω → Bool) → List (Assign ω) → Prop
  | _, [] => True
  | v, e :: es => (e.wire = strobe ∨ v strobe = false) ∧ Settled strobe (set v e) es

/-! ## One list after the other -/

@[simp] theorem drive_nil (v : ω → Bool) : drive v [] = v := rfl

@[simp] theorem drive_cons (v : ω → Bool) (e : Assign ω) (es : List (Assign ω)) :
    drive v (e :: es) = drive (set v e) es := rfl

theorem drive_append (v : ω → Bool) (es fs : List (Assign ω)) :
    drive v (es ++ fs) = drive (drive v es) fs :=
  List.foldl_append ..

theorem latches_append (strobe : ω) (v : ω → Bool) (es fs : List (Assign ω)) :
    latches strobe v (es ++ fs) = latches strobe v es ++ latches strobe (drive v es) fs := by
  induction es generalizing v with
  | nil => rfl
  | cons e es ih =>
    rw [List.cons_append, latches, ih, latches, drive_cons, List.append_assoc]

theorem settled_append {strobe : ω} {v : ω → Bool} {es fs : List (Assign ω)} :
    Settled strobe v (es ++ fs) ↔ Settled strobe v es ∧ Settled strobe (drive v es) fs := by
  induction es generalizing v with
  | nil => simp [Settled]
  | cons e es ih =>
    rw [List.cons_append, Settled, ih, Settled, drive_cons, and_assoc]

/-! ## Levels -/

/-- A wire nobody assigns keeps its level. -/
theorem drive_of_notMem {v : ω → Bool} {es : List (Assign ω)} {w : ω}
    (hw : ∀ e ∈ es, e.wire ≠ w) : drive v es w = v w := by
  induction es generalizing v with
  | nil => rfl
  | cons e es ih =>
    rw [drive_cons, ih fun f hf => hw f (List.mem_cons_of_mem e hf)]
    exact Function.update_of_ne (hw e (List.mem_cons_self ..)).symm ..

/-- When every wire is assigned at most once, each has the level it was assigned. -/
theorem drive_of_mem {v : ω → Bool} {es : List (Assign ω)}
    (hnodup : (es.map Assign.wire).Nodup) {e : Assign ω} (he : e ∈ es) :
    drive v es e.wire = e.level := by
  induction es generalizing v with
  | nil => cases he
  | cons f es ih =>
    rw [List.map_cons, List.nodup_cons] at hnodup
    rw [drive_cons]
    rcases List.mem_cons.mp he with rfl | he
    · -- nothing after this one touches its wire
      rw [drive_of_notMem fun f hf heq => hnodup.1 (List.mem_map.mpr ⟨f, hf, heq⟩)]
      exact Function.update_self ..
    · exact ih hnodup.2 he

/-! ## Frames -/

/-- Nothing is latched, and nothing unsettled, while the strobe is left alone. -/
theorem latches_of_quiet {strobe : ω} {v : ω → Bool} {es : List (Assign ω)}
    (hes : ∀ e ∈ es, e.wire ≠ strobe) : latches strobe v es = [] := by
  induction es generalizing v with
  | nil => rfl
  | cons e es ih =>
    rw [latches, if_neg fun h => hes e (List.mem_cons_self ..) h.1, List.nil_append]
    exact ih fun f hf => hes f (List.mem_cons_of_mem e hf)

theorem settled_of_low {strobe : ω} {v : ω → Bool} {es : List (Assign ω)}
    (hes : ∀ e ∈ es, e.wire ≠ strobe) (hv : v strobe = false) : Settled strobe v es := by
  induction es generalizing v with
  | nil => trivial
  | cons e es ih =>
    refine ⟨.inr hv, ih (fun f hf => hes f (List.mem_cons_of_mem e hf)) ?_⟩
    rw [set, Function.update_of_ne (hes e (List.mem_cons_self ..)).symm]
    exact hv

/-- The strobe goes up and down again. -/
def pulse (strobe : ω) : List (Assign ω) := [⟨strobe, true⟩, ⟨strobe, false⟩]

/-- Assignments to wires other than the strobe, then a pulse. -/
def frame (strobe : ω) (es : List (Assign ω)) : List (Assign ω) := es ++ pulse strobe

/-- After a frame the strobe is low again. -/
theorem drive_frame_strobe (strobe : ω) (v : ω → Bool) (es : List (Assign ω)) :
    drive v (frame strobe es) strobe = false := by
  rw [frame, drive_append]
  exact Function.update_self ..

/-- A frame leaves every other wire where its assignments put it. -/
theorem drive_frame_of_ne {strobe w : ω} (hw : w ≠ strobe) (v : ω → Bool)
    (es : List (Assign ω)) : drive v (frame strobe es) w = drive v es w := by
  rw [frame, drive_append, pulse, drive_cons, drive_cons, drive_nil, set, set,
    Function.update_of_ne hw, Function.update_of_ne hw]

/-- **One frame, one latch**: the receiver sees the assigned levels, once, with the strobe
still high. -/
theorem latches_frame {strobe : ω} {v : ω → Bool} {es : List (Assign ω)}
    (hes : ∀ e ∈ es, e.wire ≠ strobe) :
    latches strobe v (frame strobe es) = [set (drive v es) ⟨strobe, true⟩] := by
  have hup : set (drive v es) ⟨strobe, true⟩ strobe = true := Function.update_self ..
  rw [frame, latches_append, latches_of_quiet hes, List.nil_append, pulse, latches, latches,
    latches, if_neg (fun h => Bool.noConfusion h.2.2), if_pos ⟨rfl, hup, rfl⟩]
  rfl

/-- A frame that starts with the strobe low touches nothing while it is high. -/
theorem settled_frame {strobe : ω} {v : ω → Bool} {es : List (Assign ω)}
    (hes : ∀ e ∈ es, e.wire ≠ strobe) (hv : v strobe = false) :
    Settled strobe v (frame strobe es) :=
  settled_append.mpr ⟨settled_of_low hes hv, .inl rfl, .inl rfl, trivial⟩

/-- **Frames in sequence**: the receiver latches one snapshot for each frame, in order,
and each shows what its frame was to show. `I` is what the frames keep of the levels in
between, the strobe being low among it. -/
theorem latches_frames {κ : Type v} {β : Type w} {strobe : ω} {es : κ → List (Assign ω)}
    {view : (ω → Bool) → β} {shows : κ → β} {I : (ω → Bool) → Prop}
    (hlow : ∀ {v}, I v → v strobe = false)
    (hkeep : ∀ k {v}, I v → I (drive v (frame strobe (es k))))
    (hes : ∀ k, ∀ e ∈ es k, e.wire ≠ strobe)
    (hview : ∀ k {v}, I v → view (set (drive v (es k)) ⟨strobe, true⟩) = shows k)
    {v : ω → Bool} (hv : I v) (ks : List κ) :
    (latches strobe v (ks.flatMap fun k => frame strobe (es k))).map view = ks.map shows ∧
      Settled strobe v (ks.flatMap fun k => frame strobe (es k)) := by
  induction ks generalizing v with
  | nil => exact ⟨rfl, trivial⟩
  | cons k ks ih =>
    obtain ⟨hlatch, hsettled⟩ := ih (hkeep k hv)
    constructor
    · rw [List.flatMap_cons, latches_append, List.map_append, hlatch, latches_frame (hes k),
        List.map_singleton, hview k hv, List.map_cons, List.singleton_append]
    · rw [List.flatMap_cons, settled_append]
      exact ⟨settled_frame (hes k) (hlow hv), hsettled⟩

/-- Whatever the levels, frames are latched as often as there are frames. -/
theorem length_latches_frames {κ : Type v} {strobe : ω} {es : κ → List (Assign ω)}
    (hes : ∀ k, ∀ e ∈ es k, e.wire ≠ strobe) (v : ω → Bool) (ks : List κ) :
    (latches strobe v (ks.flatMap fun k => frame strobe (es k))).length = ks.length := by
  induction ks generalizing v with
  | nil => rfl
  | cons k ks ih =>
    rw [List.flatMap_cons, latches_append, List.length_append, ih, latches_frame (hes k),
      List.length_singleton, List.length_cons, Nat.add_comm]

/-- **Overlapping pulses are one**: a strobe raised before a frame and lowered after it adds
no latch to the one of the frame. -/
theorem length_latches_overlap {strobe : ω} {es fs : List (Assign ω)}
    (hes : ∀ e ∈ es, e.wire ≠ strobe) (hfs : ∀ e ∈ fs, e.wire ≠ strobe) (v : ω → Bool) :
    (latches strobe v (es ++ [⟨strobe, true⟩] ++ frame strobe fs ++ [⟨strobe, false⟩])).length =
      1 := by
  have hraise : ∀ w : ω → Bool, latches strobe w [⟨strobe, true⟩] = [] := by
    intro w
    rw [latches, if_neg fun h => Bool.noConfusion h.2.2]
    rfl
  have hlower : ∀ {w : ω → Bool}, w strobe = false → latches strobe w [⟨strobe, false⟩] = [] := by
    intro w hw
    rw [latches, if_neg fun h => Bool.noConfusion (hw.symm.trans h.2.1)]
    rfl
  rw [latches_append, latches_append, latches_append, latches_of_quiet hes, hraise,
    latches_frame hfs, hlower]
  · rfl
  · rw [drive_append]
    exact drive_frame_strobe ..

end Strobe

end KernelModules
