import Netlab.Netns
import Netlab.Proofs.Shell.Substitution

/-!
# What a mount block addresses

The block that gives the namespace of a container its handle looks the container up by a name that
is quoted once and then stands between backquotes.  So the name that is looked up is the stripped
one, and the handle is that of the name itself.

* `Netns.assignment?_containerPid`   the name that is looked up;
* `Netns.calls?_linkHandle`          the line that makes the handle;
* `Netns.mount_addresses_iff`        when the block is about the container it is made for.
-/

namespace Netlab.Netns

open Shell (Command Part Reader Inert assignment? backquoted? calls? literal quote quoteChars
  readLines? stripped?)

/-! ## the process id -/

/-- the program call that tells the process id of a container -/
def pidCall (container : String) : List String :=
  ["docker", "inspect", container, "--format", "\x7b\x7b.State.Pid\x7d\x7d"]

/-- the text of that call in front of the name -/
def pidFront : List Char := "docker inspect ".toList

/-- the text of that call behind the name -/
def pidBack : List Char := " --format '\x7b\x7b.State.Pid\x7d\x7d'".toList

theorem containerPid_text (n : String) :
    (containerPid n).text.toList
      = "PID".toList ++ '=' :: '`' :: (pidFront ++ (quoteChars n.toList ++ (pidBack ++ ['`']))) := by
  show ("PID=`docker inspect " ++ quote n ++ " --format '\x7b\x7b.State.Pid\x7d\x7d'`").toList = _
  rw [String.toList_append, String.toList_append, Shell.quote_toList, List.append_assoc]
  rfl

/-- the call is read from its text, however its name is written -/
theorem calls?_pidCall (env : String → String) (written m : List Char)
    (hwritten : ∀ line lines, feed Reader.step ⟨.bare, none, line, lines⟩ written
      = some ⟨.bare, some (m.map .char), line, lines⟩) (hnul : '\x00' ∉ written) :
    calls? env (.ofList (pidFront ++ (written ++ pidBack))) = some [pidCall (.ofList m)] := by
  have hm : m.map Part.char = literal (.ofList m) := by rw [literal, String.toList_ofList]
  have hfront : feed Reader.step {} pidFront
      = some ⟨.bare, none, [literal "docker", literal "inspect"], []⟩ := by rfl
  have hback (line : List (List Part)) (w : List Part) :
      feed Reader.step ⟨.bare, some w, line, []⟩ pidBack
        = some ⟨.bare, some (literal "\x7b\x7b.State.Pid\x7d\x7d"),
            line ++ [w] ++ [literal "--format"], []⟩ := by rfl
  have htext : '\x00' ∉ pidFront ++ (written ++ pidBack) := by
    rw [List.mem_append, List.mem_append, not_or, not_or]
    exact ⟨by decide, hnul, by decide⟩
  refine Shell.calls?_of_readLines? env _ [pidCall (.ofList m)] ?_
  rw [String.toList_ofList, Shell.readLines?_of_nul_not_mem _ htext, Reader.read?,
    feed_append_of_eq_some _ hfront, feed_append_of_eq_some _ (hwritten _ _), hback,
    Option.bind_some, hm]
  simp [Reader.finish, Reader.endLine, Reader.endWord, pidCall]

theorem assignment?_containerPid (env : String → String) (n : String) (hn : '\x00' ∉ n.toList) :
    assignment? env (containerPid n).text
      = (stripped? n.toList).map fun m => ("PID", [pidCall (.ofList m)]) := by
  have hsplit (text : List Char) :
      Link.splitAt? '=' ("PID".toList ++ '=' :: '`' :: text)
        = some ("PID".toList, '`' :: text) := rfl
  have hfront (text : List Char) :=
    Shell.backquoted?_append pidFront text (by decide) (by decide)
  have hback : backquoted? (pidBack ++ ['`']) = some (pidBack, []) := by rfl
  rw [assignment?, containerPid_text, hsplit]
  cases hm : stripped? n.toList with
  | none =>
    obtain ⟨inner, rest, h, hne⟩ :=
      Shell.backquoted?_quoteChars_of_none n.toList (pidBack ++ ['`']) hm
    simp only [hfront, h, Option.map_some, Option.map_none]
    split
    · next heq => exact absurd (Prod.mk.inj (Option.some.inj heq)).2 hne
    · rfl
  | some m =>
    obtain ⟨written, h, hread, hnul⟩ := Shell.exists_written n.toList m hm
    simp only [hfront, h, hback, Option.map_some, calls?_pidCall env written m hread (hnul hn)]
    rfl

/-- The name that is looked up is the one that is asked for if it is inert, and only then. -/
theorem assignment?_containerPid_eq_iff (env : String → String) (n : String)
    (hn : '\x00' ∉ n.toList) :
    assignment? env (containerPid n).text = some ("PID", [pidCall n]) ↔ Inert n.toList := by
  rw [assignment?_containerPid env n hn, ← Shell.stripped?_eq_self_iff, Option.map_eq_some_iff]
  constructor
  · rintro ⟨m, hm, heq⟩
    have hname : String.ofList m = n := by simpa [pidCall] using heq
    rw [hm, ← hname, String.toList_ofList]
  · exact fun h => ⟨n.toList, h, by rw [String.ofList_toList]⟩

/-! ## the handle -/

/-- the line that gives the process looked up a handle for a name -/
def linkHandle (name : String) : Command :=
  .shell ("ln -s /proc/$PID/ns/net " ++ quote (handle name))

theorem nul_not_mem_linkHandle (n : String) (hn : '\x00' ∉ n.toList) :
    '\x00' ∉ (linkHandle n).text.toList := by
  rw [linkHandle, Command.text, String.toList_append, List.mem_append, Shell.nul_mem_quote_iff,
    handle, String.toList_append, String.toList_append, List.mem_append, List.mem_append]
  rintro (h | (h | h) | h)
  · exact absurd h (by decide)
  · exact absurd h (by decide)
  · exact absurd h (by decide)
  · exact hn h

theorem readLines?_linkHandle (n : String) (hn : '\x00' ∉ n.toList) :
    readLines? (linkHandle n).text.toList
      = some [[literal "ln", literal "-s", literal "/proc/" ++ ([.ref "PID"] ++ literal "/ns/net"),
          literal (handle n)]] := by
  have hfront : feed Reader.step {} "ln -s /proc/$PID/ns/net ".toList
      = some ⟨.bare, none, [literal "ln", literal "-s",
          literal "/proc/" ++ ([.ref "PID"] ++ literal "/ns/net")], []⟩ := by rfl
  rw [Shell.readLines?_of_nul_not_mem _ (nul_not_mem_linkHandle n hn), linkHandle, Command.text,
    String.toList_append, Reader.read?, feed_append_of_eq_some _ hfront, Reader.feed_quote,
    Option.bind_some]
  simp [Reader.finish, Reader.endLine, Reader.endWord]

/-- the line that makes the handle, in an environment where the process id is one word -/
theorem calls?_linkHandle (env : String → String) (n : String) (hn : '\x00' ∉ n.toList)
    (hpid : env "PID" ≠ "") (hplain : (env "PID").toList.all Shell.isPlainChar = true) :
    calls? env (linkHandle n).text
      = some [["ln", "-s", "/proc/" ++ (env "PID" ++ "/ns/net"), handle n]] := by
  have hpath : Shell.expand? env (literal "/proc/" ++ ([.ref "PID"] ++ literal "/ns/net"))
      = some ("/proc/" ++ (env "PID" ++ "/ns/net")) :=
    Shell.expand?_append env _ _ _ _ (Shell.expand?_literal env _)
      (Shell.expand?_append env _ _ _ _ (Shell.expand?_ref env "PID" hpid hplain)
        (Shell.expand?_literal env _))
  rw [calls?, readLines?_linkHandle n hn, Option.bind_some]
  simp only [List.mapM_cons, List.mapM_nil, Shell.expand?_literal, hpath]
  rfl

/-! ## the block -/

/-- **What a mount block addresses.**  The second line looks up the container of a name exactly if
the name is inert between backquotes; any other name is stripped, or ends the line too early.  The
third line makes the handle of the name in any case, and that is the handle that is removed. -/
theorem mount_addresses_iff (env : String → String) (n : String) (hn : '\x00' ∉ n.toList)
    (hpid : env "PID" ≠ "") (hplain : (env "PID").toList.all Shell.isPlainChar = true) :
    ∃ prepare look link, mount n = [prepare, look, link] ∧
      (assignment? env look.text = some ("PID", [pidCall n]) ↔ Inert n.toList) ∧
      calls? env link.text = some [["ln", "-s", "/proc/" ++ (env "PID" ++ "/ns/net"), handle n]] ∧
      removeHandle n = .argv ["rm", "-rf", handle n] :=
  ⟨_, _, _, rfl, assignment?_containerPid_eq_iff env n hn,
    calls?_linkHandle env n hn hpid hplain, rfl⟩

/-- a name with quotes, blanks and a lone backslash -/
theorem mount_addresses_quoted :
    ('\x00' ∉ "a 'b\\".toList ∧ (fun _ => "4242" : String → String) "PID" ≠ "" ∧
      "4242".toList.all Shell.isPlainChar = true) ∧
    ∃ prepare look link, mount "a 'b\\" = [prepare, look, link] ∧
      assignment? (fun _ => "4242") look.text = some ("PID", [pidCall "a 'b\\"]) ∧
      calls? (fun _ => "4242") link.text
        = some [["ln", "-s", "/proc/4242/ns/net", "/var/run/netns/a 'b\\"]] := by
  have hn : '\x00' ∉ "a 'b\\".toList := by decide
  have hpid : (fun _ => "4242" : String → String) "PID" ≠ "" := by decide
  have hplain : "4242".toList.all Shell.isPlainChar = true := by decide
  obtain ⟨prepare, look, link, hmount, hlook, hlink, _⟩ :=
    mount_addresses_iff (fun _ => "4242") "a 'b\\" hn hpid hplain
  exact ⟨⟨hn, hpid, hplain⟩, prepare, look, link, hmount, hlook.mpr (by decide), hlink⟩

/-- of two backslashes in a row one is lost: the container looked up is another one -/
theorem mount_misses_twin_backslashes :
    assignment? (fun _ => "") (containerPid "a\\\\b").text = some ("PID", [pidCall "a\\b"]) := by
  have hn : '\x00' ∉ "a\\\\b".toList := by decide
  have hm : stripped? "a\\\\b".toList = some "a\\b".toList := by rfl
  rw [assignment?_containerPid _ _ hn, hm, Option.map_some, String.ofList_toList]

end Netlab.Netns
