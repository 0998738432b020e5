import Btide.Net.CommandWords

/-!
This module contains the buffers that earlier lines leave to the next one, and the lines on which the
command loop passes a `NULL` on.
-/

open Bytes CLib

namespace Btide

/--
A line as `fgets` hands it over: a newline ends it, or there is no room for more of it.
-/
structure Complete (line : Bytes) : Prop where
  length_lt : line.length < MAX_COMMAND_SIZE
  newline_last : ∀ c ∈ line.dropLast, c ≠ newline
  ends : line.getLast? = some newline ∨ line.length + 1 = MAX_COMMAND_SIZE

inductive Leaves : List Bytes → Bytes → Prop where
  | start : Leaves [] (List.replicate MAX_COMMAND_SIZE 0)
  | line {earlier : List Bytes} {buffer buffer' line : Bytes} {command : Command}
    (hleaves : Leaves earlier buffer) (hcomplete : Complete line)
    (hrun : commandLoop.runLine buffer line = .ok (buffer', command)) (hquit : command ≠ .quit)
    : Leaves (earlier ++ [line]) buffer'

namespace commandLoop

theorem kept_strtokPtr (delims mem : Bytes) (saved : Option Nat) (str : Option CharPtr)
    : Kept mem (strtokPtr delims mem saved str).mem := by
  unfold strtokPtr
  split
  . apply Kept.strtokAt
  . apply Kept.refl
  . apply Kept.strtokAt

theorem kept_stripAt {mem mem' : Bytes} {word : Option Nat} {ptr : Option CharPtr}
    (h : stripAt mem word = .ok (ptr, mem'))
    : Kept mem mem' := by
  unfold stripAt at h
  dsimp only at h
  split at h
  . cases h
    apply Kept.refl
  . split at h
    . cases h
      apply Kept.refl
    . split at h
      . cases h
        apply Kept.set
      . cases h

theorem kept_readWords {mem : Bytes} {words : Words} (h : readWords mem = .ok words)
    : Kept mem words.mem := by
  unfold readWords at h
  simp only [bind_eq_ok, pure_eq_ok] at h
  obtain ⟨⟨keyPtr, mem₁⟩, hkey, ⟨valuePtr, mem₂⟩, hvalue, rfl⟩ := h
  have hfirst := Kept.strtokAt (ascii " ") mem (some 0)
  have hsecond := Kept.strtokAt [] (strtokAt (ascii " ") mem (some 0)).mem
    (strtokAt (ascii " ") mem (some 0)).saved
  exact ((hfirst.trans hsecond).trans (kept_stripAt hkey)).trans (kept_stripAt hvalue)

theorem kept_connectOrDisconnectToClient {mem mem' : Bytes} {saved : Option Nat}
    {arguments : Option CharPtr} {disconnectFlag : Bool} {command : Command}
    (h : connectOrDisconnectToClient mem saved arguments disconnectFlag = .ok (mem', command))
    : Kept mem mem' := by
  have hkept := (kept_strtokPtr (ascii ":") mem saved arguments).trans (Kept.strtokAt (ascii ":")
    (strtokPtr (ascii ":") mem saved arguments).mem (strtokPtr (ascii ":") mem saved arguments).saved)
  unfold connectOrDisconnectToClient at h
  dsimp only at h
  split at h
  . simp only [bind_eq_ok] at h
    obtain ⟨b, -, h⟩ := h
    split at h
    . cases h
      exact hkept
    . split at h
      . cases h
        exact hkept
      . cases h
        exact hkept
  . cases h
    exact hkept

theorem kept_cut (mem : Bytes) (resume : Nat) : Kept mem (fetchParser.cut mem resume) :=
  ((Kept.strtokAt _ _ _).trans (Kept.strtokAt _ _ _)).trans (Kept.strtokAt _ _ _)

theorem kept_parse {mem mem' : Bytes} {saved : Option Nat} {args : Option CharPtr} {command : Command}
    (h : fetchParser.parse mem saved args = .ok (mem', command))
    : Kept mem mem' := by
  unfold fetchParser.parse at h
  simp only [bind_eq_ok] at h
  obtain ⟨peer, -, resume, -, h⟩ := h
  rw [(fetchParser.arguments_eq _ _ _ _).1] at h
  cases h
  exact (kept_strtokPtr _ _ _ _).trans (kept_cut _ _)

theorem kept_dispatch {words : Words} {key mem' : Bytes} {command : Command}
    (h : dispatch words key = .ok (mem', command))
    : Kept words.mem mem' := by
  obtain ⟨flag, hconnect⟩ | ⟨-, hfetch⟩ | ⟨other, hother⟩ := dispatch_cases words key
  . rw [hconnect] at h
    exact kept_connectOrDisconnectToClient h
  . rw [hfetch] at h
    exact kept_parse h
  . rw [hother] at h
    cases h
    apply Kept.refl

theorem kept_runLine {buffer buffer' line : Bytes} {command : Command}
    (h : runLine buffer line = .ok (buffer', command))
    : Kept (fgetsInto buffer line) buffer' := by
  unfold runLine at h
  simp only [bind_eq_ok] at h
  obtain ⟨words, hwords, key, -, h⟩ := h
  exact (kept_readWords hwords).trans (kept_dispatch h)

theorem fgetsInto_terminated {buffer line : Bytes} (h : Terminated buffer)
    (hline : line.length < buffer.length)
    : Terminated (fgetsInto buffer line) ∧ (fgetsInto buffer line).length = buffer.length := by
  have hlen : (fgetsInto buffer line).length = buffer.length := by
    rw [fgetsInto, List.length_append, List.length_cons, List.length_drop]
    omega
  refine ⟨?_, hlen⟩
  unfold Terminated
  rw [List.getLast?_eq_getElem?, hlen, fgetsInto, List.getElem?_append_right (by omega)]
  cases hlast : buffer.length - 1 - line.length with
  | zero => rfl
  | succ k =>
    rw [List.getElem?_cons_succ, List.getElem?_drop, show line.length + 1 + k = buffer.length - 1 by omega]
    exact h.getElem?

end commandLoop

theorem Leaves.terminated {earlier : List Bytes} {buffer : Bytes} (h : Leaves earlier buffer)
    : Terminated buffer ∧ buffer.length = MAX_COMMAND_SIZE := by
  induction h with
  | start =>
    refine ⟨?_, List.length_replicate⟩
    rw [Terminated, List.getLast?_replicate, if_neg (by decide)]
  | line hleaves hcomplete hrun hquit ih =>
    obtain ⟨hterm, hlen⟩ := ih
    have hlt := hcomplete.length_lt
    rw [← hlen] at hlt
    have hfgets := commandLoop.fgetsInto_terminated hterm hlt
    have hkept := commandLoop.kept_runLine hrun
    exact ⟨hkept.terminated hfgets.1, by rw [hkept.length_eq, hfgets.2, hlen]⟩

def Safe (line : Bytes) : Prop :=
  ∃ key, commandKey line = some key ∧ (key = ascii "FETCH" → commandValue line ≠ [])

def Overruns (line : Bytes) : Prop :=
  commandKey line = some (ascii "FETCH") ∧ Bare line ∧ line.length + 1 = MAX_COMMAND_SIZE

namespace commandLoop

theorem runLine_of_not_safe {line : Bytes} (h : ¬ Safe line) (buffer : Bytes)
    : runLine buffer line = .error .nullPointer := by
  cases hkey : commandKey line with
  | none => exact runLine_none hkey buffer
  | some key =>
    have hboth : key = ascii "FETCH" ∧ commandValue line = [] := by
      by_contra hne
      apply h
      refine ⟨key, hkey, fun hfetch hvalue => ?_⟩
      exact hne ⟨hfetch, hvalue⟩
    rw [hboth.1] at hkey
    exact runLine_fetch_blank hkey hboth.2 buffer

theorem runLine_safe {buffer line : Bytes} (h : Safe line) (hbuffer : buffer.length = MAX_COMMAND_SIZE)
    (hline : line.length < MAX_COMMAND_SIZE)
    : (Overruns line ∧ runLine buffer line = .error .outOfBounds)
        ∨ (¬ Overruns line ∧ ∃ result, runLine buffer line = .ok result) := by
  obtain ⟨key, hkey, hvalue⟩ := h
  by_cases hfetch : key = ascii "FETCH"
  . rw [hfetch] at hkey
    obtain ⟨mem, hmem⟩ := exists_fetchOf hkey (hvalue hfetch)
    have hrun := hmem.run buffer
    have hbare := resumeAt_eq_iff (hvalue hfetch)
    have hresume := hmem.resume_le
    by_cases hover : Overruns line
    . left
      refine ⟨hover, ?_⟩
      have heq := hbare.mpr hover.2.1
      have hlen := hover.2.2
      rw [hrun, if_pos (by omega)]
    . right
      refine ⟨hover, ?_⟩
      rw [hrun, if_neg]
      . exact ⟨_, rfl⟩
      . intro hle
        apply hover
        exact ⟨hkey, hbare.mp (by omega), by omega⟩
  . right
    constructor
    . intro hover
      exact hfetch (Option.some.inj (hkey.symm.trans hover.1))
    . obtain ⟨words, hwords⟩ := exists_wordsOf line
      rw [runLine_some hwords hkey]
      exact dispatch_ok hfetch _

theorem runLine_ok_iff {earlier : List Bytes} {buffer line : Bytes} (hbuffer : Leaves earlier buffer)
    (hline : line.length < MAX_COMMAND_SIZE)
    : (runLine buffer line ≠ .error .nullPointer ↔ Safe line)
        ∧ ((∃ result, runLine buffer line = .ok result) ↔ Safe line ∧ ¬ Overruns line) := by
  by_cases hsafe : Safe line
  . cases runLine_safe hsafe hbuffer.terminated.2 hline with
    | inl hover =>
      obtain ⟨hover, hrun⟩ := hover
      simp [hrun, hsafe, hover]
    | inr hok =>
      obtain ⟨hover, result, hrun⟩ := hok
      simp [hrun, hsafe, hover]
  . simp [runLine_of_not_safe hsafe buffer, hsafe]

theorem runLine_ok_iff_connect
    : (∃ result, runLine (List.replicate MAX_COMMAND_SIZE 0) (ascii "CONNECT 10.0.0.2:80\n") = .ok result)
      ∧ runLine (List.replicate MAX_COMMAND_SIZE 0) (ascii "FETCH \n") = .error .nullPointer := by
  constructor
  . rw [(runLine_ok_iff .start (by decide)).2]
    refine ⟨⟨ascii "CONNECT", by decide, ?_⟩, ?_⟩
    . intro hkey
      exact absurd hkey (by decide)
    . intro hover
      exact absurd hover.1 (by decide)
  . apply not_ne_iff.mp
    rw [(runLine_ok_iff .start (by decide)).1]
    rintro ⟨key, hkey, hvalue⟩
    rw [show commandKey (ascii "FETCH \n") = some (ascii "FETCH") from by decide, Option.some.injEq] at hkey
    exact hvalue hkey.symm (by decide)

theorem runLine_fails
    : runLine (List.replicate MAX_COMMAND_SIZE 0) (ascii "FETCH\n") = .error .nullPointer
      ∧ runLine (List.replicate MAX_COMMAND_SIZE 0) (ascii "   ") = .error .nullPointer :=
  ⟨runLine_fetch_blank (by decide) (by decide) _, runLine_none (by decide) _⟩

end commandLoop

end Btide
