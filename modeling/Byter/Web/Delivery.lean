import Mathlib.Algebra.Order.Ring.Nat
import Byter.Web.Response

/-!
# How a response is delivered

Whatever room there is at each call, the response offers its head and its content to TCP once
and in order, and knows when it has offered everything. What `tcp_write` refuses is not
offered again.
-/

namespace Byter

open AsyncBasicResponse

/-- An occasion to send: how many bytes have been acknowledged, the room in the send
buffer, and what TCP makes of a write. A connection that waits for an acknowledgement
(`_pcb_busy`) gives a poll no room. -/
structure Turn where
  len : ℕ
  room : ℕ
  tcp : Tcp
deriving DecidableEq, Repr

def AsyncBasicResponse.turn (s : AsyncBasicResponse × AsyncClient) (t : Turn) :
    AsyncBasicResponse × AsyncClient :=
  s.1.ack t.len t.tcp { s.2 with room := t.room }

/-- `_respond`, and then `_ack` at every turn. -/
def deliver (version : ℕ) (r : AsyncBasicResponse) (c : AsyncClient) (first : Turn)
    (turns : List Turn) : AsyncBasicResponse × AsyncClient :=
  turns.foldl turn (r.respond version first.tcp { c with room := first.room })

/-- What `_respond` offers: nothing where the head alone would fill the room exactly and there is
content, and otherwise as much as there is room for. -/
def firstOffer (head content : Bytes) (room : ℕ) : ℕ :=
  if room = head.length ∧ content ≠ [] then 0 else room

/-- What has been offered in all. -/
def offered (head content : Bytes) (first : Turn) (turns : List Turn) : ℕ :=
  firstOffer head content first.room + (turns.map Turn.room).sum

/-! ## What TCP has taken -/

variable {p data message : Bytes} {c₀ c : AsyncClient}

/-- Of the bytes `p`, TCP has taken all but those that it has refused, in order. -/
def Taken (p : Bytes) (c₀ c : AsyncClient) : Prop :=
  ∃ w, c.sent = c₀.sent ++ w ∧ w.Sublist p ∧ c.refused + w.length = c₀.refused + p.length

namespace Taken

theorem start (room : ℕ) : Taken [] c₀ { c₀ with room := room } :=
  ⟨[], by simp, List.Sublist.refl [], rfl⟩

theorem room (h : Taken p c₀ c) (k : ℕ) : Taken p c₀ { c with room := k } := h

theorem write (h : Taken p c₀ c) (hroom : data.length ≤ c.room) (tcp : Tcp) :
    Taken (p ++ data) c₀ (c.write tcp data).1 := by
  obtain ⟨w, hsent, hsub, hlength⟩ := h
  have hall : (if c.room < data.length then c.room else data.length) = data.length :=
    if_neg (by omega)
  cases tcp with
  | accepts | holds =>
      refine ⟨w ++ data, ?_, hsub.append_right data, ?_⟩
      · simp [AsyncClient.write, hall, hsent]
      · simp only [AsyncClient.write, List.length_append]
        omega
  | refuses =>
      refine ⟨w, hsent, hsub.trans (List.sublist_append_left p data), ?_⟩
      simp only [AsyncClient.write, hall, List.length_append]
      omega

/-- Where nothing has been refused, everything has been taken. -/
theorem eq_of_refused (h : Taken p c₀ c) (hrefused : c.refused = c₀.refused) :
    c.sent = c₀.sent ++ p := by
  obtain ⟨w, hsent, hsub, hlength⟩ := h
  rw [hsent, hsub.eq_of_length (by omega)]

end Taken

/-! ## One turn -/

/-- How far the response has come when `n` bytes have been offered, the first time in a room
of `k` bytes. -/
inductive Progress (message : Bytes) (c₀ : AsyncClient) (k n : ℕ) :
    AsyncBasicResponse × AsyncClient → Prop
  | content {r : AsyncBasicResponse} {c : AsyncClient} (state : r.state = .content)
      (first : k < message.length) (more : n ≤ message.length)
      (content : r.content = message.drop n)
      (length : r.contentLength = r.sentLength + r.content.length)
      (taken : Taken (message.take n) c₀ c) : Progress message c₀ k n (r, c)
  | all {r : AsyncBasicResponse} {c : AsyncClient} (state : r.state = .waitAck ∨ r.state = .finished)
      (first : message.length ≤ k ∨ message.length < n) (all : message.length ≤ n)
      (taken : Taken message c₀ c) : Progress message c₀ k n (r, c)

variable {k n : ℕ}

theorem Progress.turn {s : AsyncBasicResponse × AsyncClient} (h : Progress message c₀ k n s)
    (t : Turn) : Progress message c₀ k (n + t.room) (turn s t) := by
  cases h with
  | @content r c state first more content length taken =>
      have havailable : r.contentLength - r.sentLength = r.content.length := by omega
      have hlength : r.content.length = message.length - n := by rw [content, List.length_drop]
      unfold AsyncBasicResponse.turn AsyncBasicResponse.ack
      simp only [state, AsyncClient.space, havailable]
      by_cases hspace : t.room > r.content.length
      · rw [if_pos hspace]
        refine .all (Or.inl rfl) (Or.inr (by omega)) (by omega) ?_
        have hfit : r.content.length ≤ t.room := Nat.le_of_lt hspace
        have hwrite := (taken.room t.room).write hfit t.tcp
        rw [content, List.take_append_drop] at hwrite
        rw [List.take_length, content]
        exact hwrite
      · rw [if_neg hspace]
        refine .content rfl first (by omega) ?_ ?_ ?_
        · rw [content, List.drop_drop]
        · dsimp only
          rw [List.length_drop]
          omega
        · have hpart : (r.content.take t.room).length ≤ t.room := List.length_take_le _ _
          have hwrite := (taken.room t.room).write hpart t.tcp
          rw [List.take_add, ← content]
          exact hwrite
  | @all r c state first all taken =>
      unfold AsyncBasicResponse.turn AsyncBasicResponse.ack
      obtain hstate | hstate := state
      · simp only [hstate]
        refine .all ?_ (by omega) (by omega) (taken.room t.room)
        split
        · exact Or.inr rfl
        · exact Or.inl rfl
      · simp only [hstate]
        exact .all (Or.inr rfl) (by omega) (by omega) (taken.room t.room)

theorem Progress.turns {s : AsyncBasicResponse × AsyncClient} (h : Progress message c₀ k n s)
    (turns : List Turn) :
    Progress message c₀ k (n + (turns.map Turn.room).sum) (turns.foldl AsyncBasicResponse.turn s) := by
  induction turns generalizing s n with
  | nil => simpa using h
  | cons t turns ih =>
      rw [List.map_cons, List.sum_cons, ← Nat.add_assoc]
      exact ih (h.turn t)

theorem Progress.taken {s : AsyncBasicResponse × AsyncClient} (h : Progress message c₀ k n s) :
    Taken (message.take n) c₀ s.2 := by
  cases h with
  | content state first more content length taken => exact taken
  | all state first all taken =>
      rw [List.take_of_length_le all]
      exact taken

/-! ## From the first call on -/

/-- A response that has been made and not sent. -/
structure AsyncBasicResponse.Fresh (r : AsyncBasicResponse) : Prop where
  contentLength : r.contentLength = r.content.length
  sentLength : r.sentLength = 0

theorem fresh_new (code : ℕ) (contentType content : Bytes) :
    (new code contentType content).Fresh := ⟨rfl, rfl⟩

/-- All five cases of `_respond`. -/
theorem respond_progress {r : AsyncBasicResponse} (hr : r.Fresh) (version : ℕ) (first : Turn) :
    Progress (r.assembleHead version ++ r.content) c₀ first.room
      (firstOffer (r.assembleHead version) r.content first.room)
      (r.respond version first.tcp { c₀ with room := first.room }) := by
  have hstart : Taken [] c₀ { c₀ with room := first.room } := Taken.start first.room
  have hcontent := hr.contentLength
  have hsent := hr.sentLength
  unfold respond
  simp only [AsyncClient.space, hcontent]
  generalize r.assembleHead version = out
  by_cases hempty : r.content.length = 0 ∧ first.room ≥ out.length
  · rw [if_pos hempty]
    have hnil : r.content = [] := List.eq_nil_of_length_eq_zero hempty.1
    have hoffer : firstOffer out r.content first.room = first.room := if_neg fun h => h.2 hnil
    rw [hoffer, hnil, List.append_nil]
    exact .all (Or.inl rfl) (Or.inl hempty.2) hempty.2 (hstart.write hempty.2 first.tcp)
  rw [if_neg hempty]
  by_cases hwhole : r.content.length ≠ 0 ∧ first.room ≥ out.length + r.content.length
  · rw [if_pos hwhole]
    have hlength : (out ++ r.content).length ≤ first.room := by
      rw [List.length_append]
      exact hwhole.2
    have hoffer : firstOffer out r.content first.room = first.room := if_neg fun h => by omega
    rw [hoffer]
    exact .all (Or.inl rfl) (Or.inl hlength) hlength (hstart.write hlength first.tcp)
  rw [if_neg hwhole]
  by_cases hpart : first.room ≠ 0 ∧ first.room < out.length
  · rw [if_pos hpart]
    have hoffer : firstOffer out r.content first.room = first.room := if_neg fun h => by omega
    rw [hoffer]
    have htake : (out ++ r.content).take first.room = out.take first.room :=
      List.take_append_of_le_length (by omega)
    refine .content rfl (by rw [List.length_append]; omega) (by rw [List.length_append]; omega) ?_ ?_
      ?_
    · exact (List.drop_append_of_le_length (by omega)).symm
    · simp only [List.length_append, List.length_drop]
      omega
    · rw [htake]
      exact hstart.write (List.length_take_le _ _) first.tcp
  rw [if_neg hpart]
  by_cases hshift : first.room > out.length ∧ first.room < out.length + r.content.length
  · rw [if_pos hshift]
    have hoffer : firstOffer out r.content first.room = first.room := if_neg fun h => by omega
    rw [hoffer]
    have htake : (out ++ r.content).take first.room =
        out ++ r.content.take (first.room - out.length) := by
      rw [List.take_append, List.take_of_length_le (by omega)]
    have hdrop : (out ++ r.content).drop first.room = r.content.drop (first.room - out.length) := by
      rw [List.drop_append, List.drop_eq_nil_of_le (by omega), List.nil_append]
    refine .content rfl (by rw [List.length_append]; omega) (by rw [List.length_append]; omega) ?_ ?_
      ?_
    · exact hdrop.symm
    · simp only [List.length_drop]
      omega
    · have hlength : (out ++ r.content.take (first.room - out.length)).length ≤ first.room := by
        rw [List.length_append, List.length_take]
        omega
      rw [htake]
      exact hstart.write hlength first.tcp
  · rw [if_neg hshift]
    have hoffer : firstOffer out r.content first.room = 0 := by
      unfold firstOffer
      split
      · rfl
      · rename_i hne
        by_cases hzero : first.room = 0
        · exact hzero
        · exact absurd ⟨by omega, fun hnil => by simp [hnil] at hempty hpart; omega⟩ hne
    rw [hoffer]
    refine .content rfl ?_ (Nat.zero_le _) (by simp) ?_ (by simpa using hstart)
    · rw [List.length_append]
      omega
    · simp only [List.length_append]
      omega

theorem deliver_progress {r : AsyncBasicResponse} (hr : r.Fresh) (version : ℕ) (c : AsyncClient)
    (first : Turn) (turns : List Turn) :
    Progress (r.assembleHead version ++ r.content) c first.room
      (offered (r.assembleHead version) r.content first turns) (deliver version r c first turns) :=
  (respond_progress hr version first).turns turns

/-- For every sequence of rooms and of outcomes of TCP: the bytes of the head and the content
are offered in order, as many as there has been room for (`offered`: a first room that the head
fills exactly does not count), and TCP has taken all of them but those that it has refused.
The response has more to send as long as the first room was smaller than the message and
what has been offered is no greater. -/
theorem response_delivery {r : AsyncBasicResponse} (hr : r.Fresh) (version : ℕ) (c : AsyncClient)
    (first : Turn) (turns : List Turn) :
    Taken ((r.assembleHead version ++ r.content).take
        (offered (r.assembleHead version) r.content first turns)) c
        (deliver version r c first turns).2 ∧
      ((deliver version r c first turns).1.state = .content ↔
        first.room < (r.assembleHead version ++ r.content).length ∧
          offered (r.assembleHead version) r.content first turns ≤
            (r.assembleHead version ++ r.content).length) := by
  have hprogress := deliver_progress hr version c first turns
  refine ⟨hprogress.taken, ?_⟩
  revert hprogress
  generalize deliver version r c first turns = s
  intro hprogress
  cases hprogress with
  | content state first more content length taken => exact iff_of_true state ⟨first, more⟩
  | all state first all taken =>
      refine iff_of_false ?_ (by omega)
      obtain hstate | hstate := state <;> simp [hstate]

/-- A reply that finds no room at first, then room for the head, and then is refused. -/
theorem response_delivery_refused :
    Taken (((new 200 (bytes "text/plain") (bytes "ok")).assembleHead 1 ++ bytes "ok").take 30)
        ⟨0, [], 0⟩
        (deliver 1 (new 200 (bytes "text/plain") (bytes "ok")) ⟨0, [], 0⟩ ⟨0, 0, .accepts⟩
          [⟨0, 20, .accepts⟩, ⟨20, 10, .refuses⟩]).2 :=
  (response_delivery (fresh_new 200 (bytes "text/plain") (bytes "ok")) 1 ⟨0, [], 0⟩ ⟨0, 0, .accepts⟩
    [⟨0, 20, .accepts⟩, ⟨20, 10, .refuses⟩]).1

end Byter
