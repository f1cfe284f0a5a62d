/-
Frames with a 16-bit length in front.

A stream of frames can be cut in one way only, since a frame says itself where it
ends (`prefix_of_framed`). What a reader has taken from the front of a stream
is therefore fixed by the stream, however its bytes have come (`Cut.unique`), and it
is what was sent, in this order (`Cut.prefix_of_sent`). The length is cast to 16
bits, so this holds for data of at most 65535 bytes.
-/

import FastDns.Lib.Bytes
import Mathlib.Data.List.Flatten

namespace FastDns.Lib

/-- The data behind its length. -/
def frame (data : Bytes) : Bytes := u16ToBeBytes (UInt16.ofNat data.length) ++ data

/-- The frames of a list, one behind the other. -/
def framed (messages : List Bytes) : Bytes := (messages.map frame).flatten

/-- A frame has room for the data. -/
def Framable (data : Bytes) : Prop := data.length < 65536

@[simp] theorem framed_nil : framed [] = [] := rfl

@[simp] theorem framed_cons (data : Bytes) (rest : List Bytes) :
    framed (data :: rest) = frame data ++ framed rest := rfl

theorem framed_append (messages others : List Bytes) :
    framed (messages ++ others) = framed messages ++ framed others := by
  simp [framed]

theorem framed_concat (messages : List Bytes) (data : Bytes) :
    framed (messages ++ [data]) = framed messages ++ frame data := by
  simp [framed]

theorem length_frame (data : Bytes) : (frame data).length = 2 + data.length := by
  rw [frame, List.length_append, length_u16ToBeBytes]

section Length

variable {data stream rest : Bytes}

theorem drop_frame (data rest : Bytes) : (frame data ++ rest).drop 2 = data ++ rest := rfl

/-- Any stream that is long enough for the length it begins with begins with a
frame. -/
theorem frame_append_drop (hlen : 2 ≤ stream.length)
    (hwhole : 2 + (u16At stream 0).toNat ≤ stream.length) :
    frame ((stream.drop 2).take (u16At stream 0).toNat) ++
      stream.drop (2 + (u16At stream 0).toNat) = stream := by
  have hsize : ((stream.drop 2).take (u16At stream 0).toNat).length = (u16At stream 0).toNat := by
    rw [List.length_take, List.length_drop]
    omega
  have hfront : StandsAt stream 0 (u16ToBeBytes (u16At stream 0)) := standsAt_u16At (by omega)
  obtain ⟨tail, htail⟩ := hfront
  have hdrop : stream.drop 2 = tail := by
    rw [List.drop_zero] at htail
    rw [← htail]
    rfl
  rw [frame, hsize, UInt16.ofNat_toNat, List.append_assoc, ← List.drop_drop,
    List.take_append_drop, hdrop, htail, List.drop_zero]

/-- The length that stands in front of a frame. -/
theorem u16At_frame (h : Framable data) :
    (u16At (frame data ++ rest) 0).toNat = data.length := by
  have hstands : StandsAt (frame data ++ rest) 0 (frame data) := List.prefix_append _ _
  rw [(standsAt_append.mp hstands).1.u16At, UInt16.toNat_ofNat']
  exact Nat.mod_eq_of_lt h

/-- Two streams that begin with a frame and go on alike begin with the same frame. -/
theorem eq_of_frame_front {data' rest' : Bytes} (h : Framable data) (h' : Framable data')
    (hbegins : frame data ++ rest <+: frame data' ++ rest') :
    data = data' ∧ rest <+: rest' := by
  obtain ⟨more, hmore⟩ := hbegins
  rw [List.append_assoc] at hmore
  have hlength : data.length = data'.length := by
    have hfirst : (u16At (frame data ++ (rest ++ more)) 0).toNat = data.length := u16At_frame h
    rw [← hfirst, hmore, u16At_frame h']
  obtain ⟨hframe, hrest⟩ := List.append_inj hmore (by rw [length_frame, length_frame, hlength])
  have hdata : data = data' := List.append_inj_right hframe rfl
  exact ⟨hdata, more, hrest⟩

end Length

/-- **A stream of frames can be cut in one way only.** -/
theorem prefix_of_framed {taken sent : List Bytes} {rest : Bytes}
    (htaken : ∀ data ∈ taken, Framable data) (hsent : ∀ data ∈ sent, Framable data)
    (hbegins : framed taken ++ rest <+: framed sent) : taken <+: sent := by
  induction taken generalizing sent with
  | nil => exact List.nil_prefix
  | cons data taken ih =>
      obtain ⟨hdata, htaken⟩ := List.forall_mem_cons.mp htaken
      cases sent with
      | nil =>
          have hempty := List.prefix_nil.mp hbegins
          have hlen := congrArg List.length hempty
          simp [length_frame] at hlen
      | cons data' sent =>
          obtain ⟨hdata', hsent⟩ := List.forall_mem_cons.mp hsent
          rw [framed_cons, framed_cons, List.append_assoc] at hbegins
          obtain ⟨hsame, hrest⟩ := eq_of_frame_front hdata hdata' hbegins
          exact List.cons_prefix_cons.mpr ⟨hsame, ih htaken hsent hrest⟩

/-! ### Readers -/

/-- A reader of the stream has taken these frames from it, and not yet the rest. -/
structure Cut (stream : Bytes) (taken : List Bytes) (unread : Bytes) : Prop where
  whole : stream = framed taken ++ unread
  framable : ∀ data ∈ taken, Framable data

namespace Cut

variable {stream unread rest data : Bytes} {taken : List Bytes}

theorem nothing (stream : Bytes) : Cut stream [] stream := ⟨rfl, nofun⟩

theorem arrive (h : Cut stream taken unread) (bytes : Bytes) :
    Cut (stream ++ bytes) taken (unread ++ bytes) :=
  ⟨by rw [h.whole, List.append_assoc], h.framable⟩

theorem take (h : Cut stream taken (frame data ++ rest)) (hdata : Framable data) :
    Cut stream (taken ++ [data]) rest := by
  refine ⟨?_, fun other hother => ?_⟩
  · rw [framed_concat, List.append_assoc, ← h.whole]
  · rcases List.mem_append.mp hother with hold | hnew
    · exact h.framable other hold
    · rwa [List.mem_singleton.mp hnew]

/-- What was taken is the beginning of what was sent. -/
theorem prefix_of_sent (h : Cut stream taken unread) {sent : List Bytes}
    (hsent : ∀ data ∈ sent, Framable data) (hstream : stream <+: framed sent) : taken <+: sent := by
  rw [h.whole] at hstream
  exact prefix_of_framed h.framable hsent hstream

/-- Two readers who have taken equally many frames have taken the same. -/
theorem unique (h : Cut stream taken unread) {taken' : List Bytes} {unread' : Bytes}
    (h' : Cut stream taken' unread') (hlen : taken.length = taken'.length) :
    taken = taken' ∧ unread = unread' := by
  induction taken generalizing stream taken' with
  | nil =>
      have hnil := List.eq_nil_of_length_eq_zero hlen.symm
      subst hnil
      exact ⟨rfl, h.whole.symm.trans h'.whole⟩
  | cons first taken ih =>
      cases taken' with
      | nil => cases hlen
      | cons first' taken' =>
          have hwhole := h.whole.symm.trans h'.whole
          rw [framed_cons, framed_cons, List.append_assoc, List.append_assoc] at hwhole
          obtain ⟨hsame, _⟩ := eq_of_frame_front (h.framable _ List.mem_cons_self)
            (h'.framable _ List.mem_cons_self) ⟨[], by rw [List.append_nil, hwhole]⟩
          rw [hsame] at hwhole
          have hrest := List.append_cancel_left hwhole
          obtain ⟨htail, hunread⟩ := ih
            ⟨rfl, fun data hdata => h.framable data (List.mem_cons_of_mem _ hdata)⟩
            ⟨hrest, fun data hdata => h'.framable data (List.mem_cons_of_mem _ hdata)⟩
            (Nat.succ_injective hlen)
          exact ⟨by rw [hsame, htail], hunread⟩

end Cut

end FastDns.Lib
