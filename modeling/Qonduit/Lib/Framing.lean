import Mathlib.Data.List.Induction
import Mathlib.Tactic.Common

/-!
# Framed streams

A stream is the concatenation of the encodings of the frames sent. A reader is given the part
that has arrived and either takes one frame off its front or finds that more is needed.

* **`Recognises`** — the reader takes exactly one frame, and nothing off a part of one.
* **`Framed`** — the frames read so far, and the bytes still ahead, make up what was sent.
* **`Recognises.front`** — what is read off the arrived part is the frame at the front.
* **`Framed.read_frame`** — reading a frame off the arrived part keeps it, however the stream was
  split into what has arrived and what is still to come.
-/

namespace Framing

variable {B P T : Type*}

/-- What `read` returns for the frame `p` is `frame p`. -/
structure Recognises (encode : P → List B) (frame : P → T)
    (read : List B → Option (T × List B)) : Prop where
  exact : ∀ p rest, read (encode p ++ rest) = some (frame p, rest)
  patient : ∀ p arrived rest, encode p = arrived ++ rest → rest ≠ [] → read arrived = none
  empty : read [] = none

/-- The frames read and the bytes ahead make up what was sent. -/
def Framed (encode : P → List B) (frame : P → T) (sent : List P) (handled : List T)
    (ahead : List B) : Prop :=
  ∃ done rest, sent = done ++ rest ∧ handled = done.map frame ∧ ahead = rest.flatMap encode

variable {encode : P → List B} {frame : P → T} {read : List B → Option (T × List B)}
  {sent : List P} {handled : List T}

/-- At the beginning nothing is handled and the whole stream is ahead. -/
theorem framed_start (encode : P → List B) (frame : P → T) (sent : List P) :
    Framed encode frame sent [] (sent.flatMap encode) :=
  ⟨[], sent, rfl, rfl, rfl⟩

/-- What has been handled is a beginning of what was sent, frame by frame: nothing is lost, doubled
or out of order in between. -/
theorem Framed.isPrefix {ahead : List B} (h : Framed encode frame sent handled ahead) :
    handled <+: sent.map frame := by
  obtain ⟨done, rest, rfl, rfl, -⟩ := h
  rw [List.map_append]
  exact List.prefix_append _ _

/-- What was sent and what has been read leave no choice of what is ahead, as the number of frames
handled tells how many of those sent are gone. -/
theorem Framed.ahead_eq {ahead ahead' : List B} (h : Framed encode frame sent handled ahead)
    (h' : Framed encode frame sent handled ahead') : ahead = ahead' := by
  obtain ⟨done, rest, hsent, rfl, rfl⟩ := h
  obtain ⟨done', rest', hsent', hhandled, rfl⟩ := h'
  have hlen : done.length = done'.length := by
    have := congrArg List.length hhandled
    rwa [List.length_map, List.length_map] at this
  rw [(List.append_inj (hsent.symm.trans hsent') hlen).2]

/-- A frame taken off what has arrived is the one at the front of the stream, however the stream
was split. -/
theorem Recognises.front (hread : Recognises encode frame read) {arrived coming left more : List B}
    {p : P} {t : T} (h : arrived ++ coming = encode p ++ more)
    (ht : read arrived = some (t, left)) : t = frame p ∧ left ++ coming = more := by
  -- the frame has arrived in full, or it has not
  rcases List.append_eq_append_iff.mp h with ⟨tail, hp, hcoming⟩ | ⟨extra, harr, hmore⟩
  · by_cases htail : tail = []
    · subst htail
      rw [List.append_nil] at hp
      have hexact := hread.exact p []
      rw [List.append_nil, hp, ht] at hexact
      cases hexact
      exact ⟨rfl, hcoming⟩
    · rw [hread.patient p arrived tail hp htail] at ht
      cases ht
  · rw [harr, hread.exact] at ht
    cases ht
    exact ⟨rfl, hmore.symm⟩

/-- **Reading a frame keeps the framing.** The frame that is taken off is the next of those sent,
and what is ahead afterwards are the ones behind it. -/
theorem Framed.read_frame (hread : Recognises encode frame read)
    {arrived coming left : List B} {t : T}
    (h : Framed encode frame sent handled (arrived ++ coming))
    (ht : read arrived = some (t, left)) :
    Framed encode frame sent (handled ++ [t]) (left ++ coming) := by
  obtain ⟨done, rest, rfl, rfl, hahead⟩ := h
  cases rest with
  | nil =>
    have hnil : arrived = [] := (List.append_eq_nil_iff.mp hahead).1
    rw [hnil, hread.empty] at ht
    cases ht
  | cons p rest =>
    rw [List.flatMap_cons] at hahead
    obtain ⟨rfl, hleft⟩ := hread.front hahead ht
    exact ⟨done ++ [p], rest, by simp, by simp, hleft⟩

end Framing
