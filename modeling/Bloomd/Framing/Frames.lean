import Mathlib.Data.List.Basic

/-! Streams of frames: a header of fixed size that says how long the body after it
is, or that the stream is not to be read any further. -/

namespace Framing

variable {α : Type} (headerSize : Nat) (bodySize : List α → Option Nat)

/-- The whole frames at the front of a stream, up to the first header that is
refused or that is not there yet -/
def framesWithin : Nat → List α → List (List α × List α)
  | 0, _ => []
  | fuel + 1, stream =>
    if stream.length < headerSize then []
    else
      match bodySize (stream.take headerSize) with
      | none => []
      | some size =>
        if (stream.drop headerSize).length < size then []
        else (stream.take headerSize, (stream.drop headerSize).take size) ::
          framesWithin fuel (stream.drop (headerSize + size))

def frames (stream : List α) : List (List α × List α) :=
  framesWithin headerSize bodySize (stream.length + 1) stream

variable {headerSize bodySize}

/-- A frame uses up its header at least, so the length of the stream is fuel
enough. -/
theorem framesWithin_enough (positive : 0 < headerSize) (fuel : Nat) :
    ∀ stream : List α, stream.length < fuel →
      framesWithin headerSize bodySize fuel stream = frames headerSize bodySize stream := by
  induction fuel using Nat.strongRecOn with
  | ind fuel ih =>
    intro stream bound
    cases fuel with
    | zero => omega
    | succ fuel =>
      simp only [frames, framesWithin]
      split
      · rfl
      · rename_i long
        split
        · rfl
        · rename_i size _
          have shorter : (stream.drop (headerSize + size)).length < stream.length := by
            rw [List.length_drop]
            omega
          split
          · rfl
          · rw [ih fuel (by omega) _ (by omega)]
            by_cases same : stream.length = fuel
            · rw [same, ih fuel (by omega) _ (by omega)]
            · rw [ih stream.length (by omega) _ shorter]

theorem frames_short {stream : List α} (short : stream.length < headerSize) :
    frames headerSize bodySize stream = [] := by
  simp [frames, framesWithin, short]

variable {header body rest : List α}

theorem frames_refused (whole : header.length = headerSize) (refused : bodySize header = none) :
    frames headerSize bodySize (header ++ rest) = [] := by
  have long : ¬ (header ++ rest).length < headerSize := by simp [whole]
  simp only [frames, framesWithin, long, ↓reduceIte, List.take_left' whole, refused]

theorem frames_cut {size : Nat} (whole : header.length = headerSize) (sized : bodySize header = some size)
    (cut : rest.length < size) : frames headerSize bodySize (header ++ rest) = [] := by
  have long : ¬ (header ++ rest).length < headerSize := by simp [whole]
  simp only [frames, framesWithin, long, ↓reduceIte, List.take_left' whole, sized, List.drop_left' whole, cut]

theorem frames_cons (positive : 0 < headerSize) (whole : header.length = headerSize)
    (sized : bodySize header = some body.length) :
    frames headerSize bodySize (header ++ (body ++ rest)) = (header, body) :: frames headerSize bodySize rest := by
  have long : ¬ (header ++ (body ++ rest)).length < headerSize := by simp [whole]
  have filled : ¬ (body ++ rest).length < body.length := by simp
  have after : (header ++ (body ++ rest)).drop (headerSize + body.length) = rest := by
    rw [← List.drop_drop, List.drop_left' whole, List.drop_left]
  rw [frames, framesWithin]
  simp only [long, ↓reduceIte, List.take_left' whole, sized, List.drop_left' whole, filled, List.take_left, after]
  rw [framesWithin_enough positive]
  simp [whole]
  omega

/-- Whole frames at the front are read as they are, whatever comes after them. -/
theorem frames_append (positive : 0 < headerSize) (read : List (List α × List α))
    (whole : ∀ frame ∈ read, frame.1.length = headerSize ∧ bodySize frame.1 = some frame.2.length) :
    frames headerSize bodySize (read.flatMap (fun frame => frame.1 ++ frame.2) ++ rest) =
      read ++ frames headerSize bodySize rest := by
  induction read with
  | nil => rfl
  | cons frame read ih =>
    obtain ⟨size, announced⟩ := whole frame List.mem_cons_self
    rw [List.flatMap_cons, List.append_assoc, List.append_assoc, frames_cons positive size announced,
      ih fun other mem => whole other (List.mem_cons_of_mem _ mem)]
    rfl

end Framing
