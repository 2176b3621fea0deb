import MeshcoreSniffer.Lib.Circular
import MeshcoreSniffer.Lib.CString
import MeshcoreSniffer.Lib.Runs
import Mathlib.Data.List.DropRight

/-!
# Server-sent events

`promote_to_sse` and `web_publish_line` of `web.c` each hold the lock for all they do, so an
interleaving is a list of joins and published lines.
-/

namespace MeshcoreSniffer.Web

open Lib List

/-! ## Model -/

def historyRingSize : Nat := 1024

def maxSseClients : Nat := 8

structure History where
  slots : List (List Byte) := List.replicate historyRingSize []
  head : Nat := 0
  count : Nat := 0

def History.push (h : History) (line : List Byte) : History where
  slots := h.slots.set h.head line
  head := (h.head + 1) % historyRingSize
  count := if h.count < historyRingSize then h.count + 1 else h.count

def History.replay (h : History) : List (List Byte) :=
  let start := if h.count < historyRingSize then 0 else h.head
  ((List.range h.count).map fun k => h.slots.getD ((start + k) % historyRingSize) []).filter (· ≠ [])

/-- Connections are numbered as they join; `sent` is what has gone out to each. -/
structure Server where
  history : History := {}
  clients : List Nat := []
  sent : Nat → List Byte := fun _ => []
  joined : Nat := 0

def sseHeader : List Byte :=
  ascii ("HTTP/1.1 200 OK\r\nContent-Type: text/event-stream\r\nCache-Control: no-cache\r\n" ++
    "Connection: keep-alive\r\nAccess-Control-Allow-Origin: *\r\n\r\nretry: 2000\n\n")

def frame (line : List Byte) : List Byte := ascii "data: " ++ line ++ [0x0A, 0x0A]

def promoteToSse (s : Server) : Server where
  history := s.history
  clients := if s.clients.length < maxSseClients then s.clients ++ [s.joined] else s.clients
  sent := Function.update s.sent s.joined (sseHeader ++ s.history.replay.flatMap frame)
  joined := s.joined + 1

/-- `g_sse_fds[i] = g_sse_fds[--g_sse_count]`. -/
def swapIn (rest : List Nat) : List Nat :=
  match rest.getLast? with
  | none => []
  | some last => last :: rest.dropLast

theorem swapIn_perm (rest : List Nat) : (swapIn rest).Perm rest := by
  unfold swapIn
  rcases eq_nil_or_concat rest with rfl | ⟨init, last, rfl⟩
  · exact .refl _
  · rw [concat_eq_append, getLast?_concat, dropLast_concat]
    exact (perm_append_singleton last init).symm

/-- Those already served, and those from index `i` on. A client `accepts` so many bytes. -/
def broadcast (buf : List Byte) (accepts : Nat → Nat) (served todo : List Nat)
    (sent : Nat → List Byte) : List Nat × (Nat → List Byte) :=
  match todo with
  | [] => (served, sent)
  | fd :: rest =>
    let sent := Function.update sent fd (sent fd ++ buf.take (accepts fd))
    if accepts fd < buf.length then broadcast buf accepts served (swapIn rest) sent
    else broadcast buf accepts (served ++ [fd]) rest sent
termination_by todo.length
decreasing_by
  · simp [(swapIn_perm rest).length_eq]
  · simp

def trimLine (json : List Byte) : List Byte := json.rdropWhile fun b => b == 0x0A || b == 0x0D

def webPublishLine (s : Server) (json : List Byte) (accepts : Nat → Nat) : Server :=
  if trimLine json = [] then s
  else
    let (clients, sent) := broadcast (frame (trimLine json)) accepts [] s.clients s.sent
    { s with history := s.history.push (trimLine json), clients, sent }

inductive Event where
  | publish (json : List Byte) (accepts : Nat → Nat)
  | join

def Server.step (s : Server) : Event → Server
  | .publish json accepts => webPublishLine s json accepts
  | .join => promoteToSse s

def published (events : List Event) : List (List Byte) :=
  (events.map fun
    | .publish json _ => trimLine json
    | .join => []).filter (· ≠ [])

/-! ## The ring -/

/-- The ring holds the end of `lines`. -/
structure Kept (h : History) (lines : List (List Byte)) : Prop where
  size : h.slots.length = historyRingSize
  head : h.head = lines.length % historyRingSize
  count : h.count = min lines.length historyRingSize
  holds : Circular.Holds h.slots lines
  nonempty : ∀ l ∈ lines, l ≠ []

variable {lines : List (List Byte)} {s : Server}

theorem kept_push {h : History} (hkept : Kept h lines) {line : List Byte} (hline : line ≠ []) :
    Kept (h.push line) (lines ++ [line]) where
  size := by simp [History.push, hkept.size]
  head := by simp [History.push, hkept.head]
  count := by
    have hcount := hkept.count
    simp only [History.push, length_append, length_singleton]
    split <;> omega
  holds := by
    have hpos : 0 < h.slots.length := by rw [hkept.size]; decide
    have hset := hkept.holds.set hpos line
    rwa [hkept.size, ← hkept.head] at hset
  nonempty := by
    intro l hl
    rcases mem_append.mp hl with hold | hnew
    · exact hkept.nonempty l hold
    · rwa [mem_singleton.mp hnew]

theorem replay_eq {h : History} (hkept : Kept h lines) :
    h.replay = lines.drop (lines.length - historyRingSize) := by
  have hcount := hkept.count
  have hstart : ∀ k, ((if h.count < historyRingSize then 0 else h.head) + k) % historyRingSize =
      (lines.length - historyRingSize + k) % historyRingSize := by
    intro k
    split
    next hfew =>
      rw [show lines.length - historyRingSize = 0 by omega]
    next hfull =>
      have hle : historyRingSize ≤ lines.length := by omega
      rw [hkept.head, ← Nat.add_mod_right (lines.length - historyRingSize + k), Nat.mod_add_mod]
      congr 1
      omega
  have hall : ((range h.count).map fun k => h.slots.getD
      (((if h.count < historyRingSize then 0 else h.head) + k) % historyRingSize) []) =
      lines.drop (lines.length - historyRingSize) := by
    refine ext_getElem (by simp; omega) fun k hk _ => ?_
    simp only [length_map, length_range] at hk
    have hget := hkept.holds (lines.length - historyRingSize + k) (by omega) (by rw [hkept.size]; omega)
    rw [hkept.size] at hget
    rw [getElem_map, getElem_range, hstart, getElem_drop, getD_eq_getElem?_getD,
      hget, getElem?_eq_getElem (by omega), Option.getD_some]
  unfold History.replay
  dsimp only
  rw [hall, filter_eq_self]
  intro l hl
  exact decide_eq_true (hkept.nonempty l (mem_of_mem_drop hl))

/-! ## The broadcast -/

theorem broadcast_spec (buf : List Byte) (accepts : Nat → Nat) (served todo : List Nat)
    (sent : Nat → List Byte) (hnodup : todo.Nodup) :
    (broadcast buf accepts served todo sent).1.Perm
        (served ++ todo.filter fun c => buf.length ≤ accepts c) ∧
      ∀ c, (broadcast buf accepts served todo sent).2 c =
        if c ∈ todo then sent c ++ buf.take (accepts c) else sent c := by
  induction served, todo, sent using broadcast.induct buf accepts with
  | case1 served sent => simp [broadcast]
  | case2 served sent fd rest sent' hshort ih =>
    have hperm := swapIn_perm rest
    obtain ⟨hfd, hrest⟩ := nodup_cons.mp hnodup
    obtain ⟨hclients, hsent⟩ := ih (hperm.nodup_iff.mpr hrest)
    rw [broadcast, if_pos hshort]
    refine ⟨hclients.trans ?_, fun c => ?_⟩
    · rw [filter_cons_of_neg (by simpa using hshort)]
      exact (hperm.filter _).append_left served
    · rw [hsent c]
      by_cases hc : c = fd
      · simp [hc, hfd, sent', hperm.mem_iff]
      · simp [hc, sent', hperm.mem_iff]
  | case3 served sent fd rest sent' hfull ih =>
    obtain ⟨hfd, hrest⟩ := nodup_cons.mp hnodup
    obtain ⟨hclients, hsent⟩ := ih hrest
    rw [broadcast, if_neg hfull]
    refine ⟨hclients.trans ?_, fun c => ?_⟩
    · rw [filter_cons_of_pos (by simpa using hfull), append_assoc, singleton_append]
    · rw [hsent c]
      by_cases hc : c = fd
      · simp [hc, hfd, sent']
      · simp [hc, sent']

/-! ## Runs -/

/-- What holds after `lines` were published. -/
structure Server.Inv (s : Server) (lines : List (List Byte)) : Prop where
  kept : Kept s.history lines
  nodup : s.clients.Nodup
  joined : ∀ c ∈ s.clients, c < s.joined

theorem publish_spec (h : s.Inv lines) {json : List Byte} (hline : trimLine json ≠ [])
    (accepts : Nat → Nat) : (webPublishLine s json accepts).clients.Perm
        (s.clients.filter fun c => (frame (trimLine json)).length ≤ accepts c) ∧
      ∀ c, (webPublishLine s json accepts).sent c =
        if c ∈ s.clients then s.sent c ++ (frame (trimLine json)).take (accepts c) else s.sent c := by
  unfold webPublishLine
  rw [if_neg hline]
  exact broadcast_spec _ accepts [] s.clients s.sent h.nodup

theorem inv_step (h : s.Inv lines) (e : Event) :
    (s.step e).Inv (lines ++ published [e]) ∧ s.joined ≤ (s.step e).joined ∧
      ∀ c < s.joined, c ∈ (s.step e).clients →
        c ∈ s.clients ∧ (s.step e).sent c = s.sent c ++ (published [e]).flatMap frame := by
  cases e with
  | join =>
    have hmem : ∀ c ∈ (promoteToSse s).clients, c ∈ s.clients ∨ c = s.joined := by
      intro c hc
      unfold promoteToSse at hc
      split at hc
      · simpa using hc
      · exact .inl hc
    have hold : ∀ c < s.joined, c ∈ (promoteToSse s).clients → c ∈ s.clients :=
      fun c hlt hc => (hmem c hc).resolve_right hlt.ne
    rw [show published [.join] = [] from rfl, append_nil]
    refine ⟨⟨h.kept, ?_, fun c hc => ?_⟩, Nat.le_succ _, fun c hlt hc => ⟨hold c hlt hc, ?_⟩⟩
    · show (if _ then s.clients ++ [s.joined] else s.clients).Nodup
      split
      · rw [← concat_eq_append]
        exact h.nodup.concat fun hc => (h.joined _ hc).false
      · exact h.nodup
    · show c < s.joined + 1
      rcases hmem c hc with hin | rfl
      · exact (h.joined c hin).trans (Nat.lt_succ_self _)
      · exact Nat.lt_succ_self _
    · rw [flatMap_nil, append_nil]
      exact Function.update_of_ne hlt.ne _ s.sent
  | publish json accepts =>
    by_cases hline : trimLine json = []
    · have hsame : s.step (.publish json accepts) = s := if_pos hline
      rw [hsame]
      simpa [published, hline] using h
    · obtain ⟨hclients, hsent⟩ := publish_spec h hline accepts
      have hnew : published [.publish json accepts] = [trimLine json] := by simp [published, hline]
      have hmem : ∀ c ∈ (webPublishLine s json accepts).clients,
          c ∈ s.clients ∧ (frame (trimLine json)).length ≤ accepts c := by
        intro c hc
        simpa using hclients.subset hc
      rw [hnew]
      refine ⟨⟨?_, ?_, ?_⟩, ?_, fun c _ hc => ⟨(hmem c hc).1, ?_⟩⟩
      · have hkept := kept_push h.kept hline
        show Kept (webPublishLine s json accepts).history _
        rwa [webPublishLine, if_neg hline]
      · exact hclients.nodup_iff.mpr (h.nodup.filter _)
      · intro c hc
        show c < (webPublishLine s json accepts).joined
        rw [webPublishLine, if_neg hline]
        exact h.joined c (hmem c hc).1
      · show s.joined ≤ (webPublishLine s json accepts).joined
        rw [webPublishLine, if_neg hline]
      · obtain ⟨hin, hall⟩ := hmem c hc
        show (webPublishLine s json accepts).sent c = _
        rw [hsent c, if_pos hin, take_of_length_le hall, flatMap_singleton]

theorem published_append (a b : List Event) : published (a ++ b) = published a ++ published b := by
  simp [published]

theorem inv_run (h : s.Inv lines) (events : List Event) :
    (Runs.run Server.step s events).Inv (lines ++ published events) ∧
      ∀ c < s.joined, c ∈ (Runs.run Server.step s events).clients → c ∈ s.clients ∧
        (Runs.run Server.step s events).sent c = s.sent c ++ (published events).flatMap frame := by
  induction events generalizing s lines with
  | nil => simpa [published, Runs.run] using h
  | cons e events ih =>
    obtain ⟨hinv, hle, hkeeps⟩ := inv_step h e
    obtain ⟨hrun, hsent⟩ := ih hinv
    rw [← singleton_append, published_append, ← append_assoc]
    refine ⟨hrun, fun c hlt hc => ?_⟩
    obtain ⟨hmid, htail⟩ := hsent c (hlt.trans_le hle) hc
    obtain ⟨hin, hhead⟩ := hkeeps c hlt hmid
    refine ⟨hin, ?_⟩
    show (Runs.run Server.step (s.step e) events).sent c = _
    rw [htail, hhead, flatMap_append, append_assoc]

theorem inv_start : Server.Inv {} [] where
  kept := ⟨by simp, rfl, rfl, Circular.holds_nil _, by simp⟩
  nodup := .nil
  joined := nofun

/-- **Clients.** In every interleaving, a client that has stayed since it joined has been sent the
last 1024 lines from before, oldest first, and then every line since; and a published line goes to
each client once and removes exactly those that do not take all of it. -/
theorem replay_joins_live (before after : List Event) :
    let joins := Runs.run Server.step {} before
    let s := Runs.run Server.step {} (before ++ .join :: after)
    (joins.joined ∈ s.clients → s.sent joins.joined = sseHeader ++
        ((published before).drop ((published before).length - historyRingSize) ++
          published after).flatMap frame) ∧
      ∀ json accepts, trimLine json ≠ [] →
        (webPublishLine s json accepts).clients.Perm
            (s.clients.filter fun c => (frame (trimLine json)).length ≤ accepts c) ∧
          ∀ c, (webPublishLine s json accepts).sent c = if c ∈ s.clients then
            s.sent c ++ (frame (trimLine json)).take (accepts c) else s.sent c := by
  intro joins s
  have hbefore := (inv_run inv_start before).1
  rw [nil_append] at hbefore
  have hjoin := (inv_step hbefore .join).1
  have hs : s = Runs.run Server.step (joins.step .join) after := Runs.run_append _ _ _
  obtain ⟨hinv, hsent⟩ := inv_run hjoin after
  refine ⟨fun hc => ?_, fun json accepts hline => ?_⟩
  · rw [hs] at hc ⊢
    rw [(hsent joins.joined (Nat.lt_succ_self _) hc).2, flatMap_append, ← append_assoc,
      ← replay_eq hbefore.kept]
    exact congrArg (· ++ _) (Function.update_self ..)
  · rw [hs]
    exact publish_spec hinv hline accepts

/-- A client joins between two lines. -/
theorem replay_joins_live_between :
    let s := Runs.run Server.step {} ([.publish (ascii "a\n") fun _ => 99] ++
      .join :: [.publish (ascii "b") fun _ => 99])
    s.clients = [0] ∧ s.sent 0 = sseHeader ++ [ascii "a", ascii "b"].flatMap frame :=
  ⟨by decide +kernel, (replay_joins_live _ _).1 (by decide +kernel)⟩

end MeshcoreSniffer.Web
