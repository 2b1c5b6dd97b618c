import WindowRules.Proofs.Conversion.Rereading
import WindowRules.Proofs.Merging.Encoded
import WindowRules.Proofs.Writing.Block
import WindowRules.Proofs.Writing.Inline

/-!
# Texts that are written with blocks, on lines and with blocks again

A text is written with blocks, these are written on lines, and the lines as blocks again. The set of the rules is the
same before and after (`rerenders_stably`), if no block that the text leaves open is closed later, and if the rules in
the blocks can be written (`Showable`): each can be shown in both dialects, and their signatures tell them in both.
Proof: the blocks are read alike in both dialects, so on lines the rules are merged as they are in the blocks; each line
is read back as its rule; and what has been merged is not changed when it is merged again.

Without these conditions there are texts that are not written stably (`not_rerenders_stably`). For one, the arguments of
a move are expressions in a block, and on a line they are rewritten if they are none yet.
-/

namespace WindowRules

/-! ## Effects under signatures -/

namespace RuleSet

/-- The keys and values of the flags under a signature. -/
def effects (set : RuleSet) (signature : Signature) : List (Text × Text) :=
  ((set.get? signature).map fun rule => rule.flags.map fun flag => (flag.key, flag.value)).getD []

/-- The sets have the same signatures, and under each the same flags with the same values. -/
def SameEffects (set other : RuleSet) : Prop :=
  ∀ signature, ((set.get? signature).isSome ↔ (other.get? signature).isSome) ∧
    ∀ effect, effect ∈ set.effects signature ↔ effect ∈ other.effects signature

end RuleSet

/-- The set of the rules of a text. -/
def ruleSet (text : Text) : RuleSet := RuleSet.ofRules (Document.read {} text).rules

/-- A text that is written with blocks has the same effects as after it has been written on lines and with blocks
again. -/
def RerendersStably (text : Text) : Prop :=
  (ruleSet (convert {} text)).SameEffects
    (ruleSet (convert {} (convert { dialect := .inline } (convert {} text))))

/-! ## Rules that can be written -/

/-- The rule can be shown in a block, and as it is kept for a line also on a line. -/
structure Rule.Expressible (rule : Rule) : Prop where
  block : rule.BlockExpressible
  inline : (rule.encoded .inline).InlineExpressible

/-- The rules have bare commas, repeat no condition and are told by their signatures in both dialects, and what they are
merged into can be shown in both. -/
structure Showable (rules : List Rule) : Prop where
  bare : ∀ rule ∈ rules, rule.Bare
  nodup : ∀ rule ∈ rules, rule.conditions.Nodup
  told : ∀ dialect, Told dialect rules
  expressible : ∀ rule ∈ merge rules, rule.Expressible

section Decidable

instance (rule : Rule) : Decidable rule.Expressible :=
  decidable_of_iff (rule.BlockExpressible ∧ (rule.encoded .inline).InlineExpressible)
    ⟨fun ⟨block, inline⟩ => ⟨block, inline⟩, fun h => ⟨h.block, h.inline⟩⟩

instance (rules : List Rule) : Decidable (Showable rules) :=
  decidable_of_iff ((∀ rule ∈ rules, rule.Bare) ∧ (∀ rule ∈ rules, rule.conditions.Nodup) ∧
      (Told .block rules ∧ Told .inline rules) ∧ ∀ rule ∈ merge rules, rule.Expressible)
    ⟨fun ⟨bare, nodup, ⟨block, inline⟩, expressible⟩ =>
        ⟨bare, nodup, fun dialect => by cases dialect; exacts [block, inline], expressible⟩,
      fun h => ⟨h.bare, h.nodup, ⟨h.told .block, h.told .inline⟩, h.expressible⟩⟩

end Decidable

/-! ## Written rules are read back -/

namespace Document

variable {text : Text}

theorem oneLine_of_mem_merge {options : Options} {rule : Rule} (h : rule ∈ merge (read options text).rules) :
    rule.OneLine := by
  obtain ⟨_, _, hgroup⟩ := Rule.exists_of_mem_merge h
  exact RuleSet.oneLine_of_get? (fun rule => oneLine_of_mem_rules) ((RuleSet.get?_ofRules _ _).trans hgroup)

/-- Rules in blocks are read back. -/
theorem rules_convert_block (hsettled : Settled {} (contents {} (textLines text)))
    (hopen : ∀ rule ∈ merge (read {} text).rules, rule.KeepsOpen) (other : Dialect) :
    Settled { dialect := other } (contents { dialect := other } (textLines (convert {} text))) ∧
      (read { dialect := other } (convert {} text)).rules =
        (merge (read {} text).rules).map (Rule.fromBlock other) := by
  refine rules_convert hsettled fun rule hr counters => ?_
  have hname := counters.isEntryValue_name rule.subject
  refine ⟨stands_blockText other (oneLine_of_mem_merge hr) (hopen rule hr) hname, ?_⟩
  have hcontents := contents_blockText other (oneLine_of_mem_merge hr) (hopen rule hr) hname
  rw [Rule.write, hcontents]
  rfl

/-- Rules on lines are read back. -/
theorem rules_convert_inline
    (hsettled : Settled { dialect := .inline } (contents { dialect := .inline } (textLines text))) (other : Dialect) :
    Settled { dialect := other } (contents { dialect := other } (textLines (convert { dialect := .inline } text))) ∧
      (read { dialect := other } (convert { dialect := .inline } text)).rules =
        (merge (read { dialect := .inline } text).rules).map (Rule.fromLine other) := by
  refine rules_convert hsettled fun rule hr counters => ?_
  refine ⟨stands_inlineText other (oneLine_of_mem_merge hr), ?_⟩
  have hcontents := contents_inlineText other (oneLine_of_mem_merge hr)
  rw [Rule.write, hcontents]
  rfl

end Document

namespace Showable

variable {rules : List Rule} (h : Showable rules)

include h

theorem bare_merge : ∀ rule ∈ merge rules, rule.Bare := fun rule hr item hi =>
  ((h.expressible rule hr).block item hi ((grouped_of_mem_merge hr).wellFormed item hi)).encoded_block

theorem ofRules_merge : RuleSet.ofRules (merge rules) = RuleSet.ofRules rules :=
  RuleSet.ofRules_merge h.nodup fun rule hr other ho hs => (same_of_told h.bare h.told rule hr other ho hs).2

/-- Read from their blocks, the merged rules are the same. -/
theorem map_fromBlock : (merge rules).map (Rule.fromBlock .block) = merge rules := by
  have hread : (merge rules).map (Rule.fromBlock .block) = (merge rules).map (Rule.encoded .block) :=
    List.map_congr_left fun rule hr => (h.expressible rule hr).block.fromBlock_of_grouped (grouped_of_mem_merge hr) .block
  rw [hread, Rule.map_encoded_block h.bare_merge]

/-- Read from their lines, the merged rules are the same up to malformed items. -/
theorem map_fromLine :
    (((merge rules).map (Rule.encoded .inline)).map (Rule.fromLine .block)).map Rule.tidied = merge rules := by
  have hmerge := merge_map_encoded_of_told h.bare h.told .inline
  have hread : ((merge rules).map (Rule.encoded .inline)).map (Rule.tidied ∘ Rule.fromLine .block) =
      ((merge rules).map (Rule.encoded .inline)).map (Rule.encoded .block) := by
    refine List.map_congr_left fun rule hr => ?_
    have hgrouped : Item.Grouped rule.items := by
      rw [← hmerge] at hr
      exact grouped_of_mem_merge hr
    obtain ⟨kept, hk, rfl⟩ := List.mem_map.mp hr
    exact (h.expressible kept hk).inline.tidied_fromLine hgrouped .block
  rw [List.map_map, hread, Rule.map_encoded_block_encoded h.bare_merge]

end Showable

/-! ## The way through both dialects -/

/-- **Blocks, lines and blocks again hold the same set of rules.** -/
theorem ruleSet_convert_convert {text : Text}
    (hsettled : Document.Settled {} (Document.contents {} (Document.textLines text)))
    (hopen : ∀ rule ∈ merge (Document.read {} text).rules, rule.KeepsOpen)
    (hshowable : Showable (Document.read {} (convert {} text)).rules) :
    ruleSet (convert {} (convert { dialect := .inline } (convert {} text))) = ruleSet (convert {} text) := by
  have hblocks := Document.rules_convert_block hsettled hopen
  have hrules := (hblocks .block).2
  -- what the blocks hold is kept for lines item by item
  have hinline : (Document.read { dialect := .inline } (convert {} text)).rules =
      (Document.read {} (convert {} text)).rules.map (Rule.encoded .inline) := by
    rw [(hblocks .inline).2, hrules, List.map_map]
    refine List.map_congr_left fun rule hr => Rule.fromBlock_inline (hshowable.bare _ ?_)
    rw [hrules]
    exact List.mem_map_of_mem hr
  have hsettled := (hblocks .inline).1
  rw [ruleSet, ruleSet]
  generalize convert {} text = blocks at hinline hsettled hshowable
  generalize (Document.read {} blocks).rules = rules at hinline hshowable
  have hmerge := merge_map_encoded_of_told hshowable.bare hshowable.told .inline
  obtain ⟨hsettled, hlines⟩ := Document.rules_convert_inline hsettled .block
  rw [hinline, hmerge] at hlines
  have hset : RuleSet.ofRules (Document.read {} (convert { dialect := .inline } blocks)).rules =
      RuleSet.ofRules (merge rules) := by
    rw [← RuleSet.ofRules_map_tidied, hlines, hshowable.map_fromLine]
  have hagain : merge (Document.read {} (convert { dialect := .inline } blocks)).rules = merge rules :=
    merge_eq_merge (hset.trans hshowable.ofRules_merge)
  have hfinal := (Document.rules_convert_block hsettled (fun rule hr => by
    rw [hagain] at hr
    exact (hshowable.expressible rule hr).block.keepsOpen) .block).2
  rw [hfinal, hagain, hshowable.map_fromBlock, hshowable.ofRules_merge]

/-- **A text is written stably** if no block that it leaves open is closed later, if no line of a written rule looks like
the opening of a block, and if the rules in the blocks can be written on lines and in blocks. -/
theorem rerenders_stably {text : Text}
    (hsettled : Document.Settled {} (Document.contents {} (Document.textLines text)))
    (hopen : ∀ rule ∈ merge (Document.read {} text).rules, rule.KeepsOpen)
    (hshowable : Showable (Document.read {} (convert {} text)).rules) :
    RerendersStably text ∧
      ruleSet (convert {} (convert { dialect := .inline } (convert {} text))) = ruleSet (convert {} text) := by
  have hsets := ruleSet_convert_convert hsettled hopen hshowable
  refine ⟨?_, hsets⟩
  rw [RerendersStably, hsets]
  exact fun signature => ⟨Iff.rfl, fun effect => Iff.rfl⟩

/-- The text with the given lines. -/
def textOfLines (lines : List String) : Text := ['\n'].intercalate (lines.map String.toList)

/-- A comment, rules on lines with commas in a value and in an expression, a layer rule and a block; the last line adds
to the first rule. -/
def mixedText : Text :=
  textOfLines ["# rules", "windowrule = move onscreen 10 20, class:^(a|b)$, title:x\\, y", "layerrule = blur, bar", "",
    "windowrule \x7b", "  name = n", "  size = 100 200", "  match:class = kitty", "\x7d", "",
    "windowrule = pin, title:x\\, y, class:^(a|b)$", ""]

theorem mixedText_rerenders_stably :
    Document.Settled {} (Document.contents {} (Document.textLines mixedText)) ∧
      (∀ rule ∈ merge (Document.read {} mixedText).rules, rule.KeepsOpen) ∧
      Showable (Document.read {} (convert {} mixedText)).rules ∧ RerendersStably mixedText := by
  have hsettled : Document.Settled {} (Document.contents {} (Document.textLines mixedText)) :=
    Document.settled_of_problems (by decide +kernel)
  have hopen : ∀ rule ∈ merge (Document.read {} mixedText).rules, rule.KeepsOpen := by decide +kernel
  have hshowable : Showable (Document.read {} (convert {} mixedText)).rules := by decide +kernel
  exact ⟨hsettled, hopen, hshowable, (rerenders_stably hsettled hopen hshowable).1⟩

/-- Texts that are not written stably: arguments of a move that are no expressions, rules that share their signature on
lines only, a block that is closed after it has been written on a line, and a value that looks like the opening of a
block. -/
theorem not_rerenders_stably :
    ¬RerendersStably (textOfLines ["windowrule \x7b", "  move = 100 100", "  match:class = a", "\x7d"]) ∧
      ¬RerendersStably (textOfLines ["windowrule \x7b", "  float = on", "  match:k = ,1", "  match:k = B2", "\x7d",
        "windowrule \x7b", "  pin = on", "  match:k = B2|k:,1", "\x7d"]) ∧
      ¬RerendersStably (textOfLines ["windowrule \x7b", "windowrule \x7b", "  float = on", "  match:class = a", "\x7d",
        "\x7d"]) ∧
      ¬RerendersStably (textOfLines ["windowrule = windowrule float\x7b, class:a"]) := by
  refine ⟨fun h => ?_, fun h => ?_, fun h => ?_, fun h => ?_⟩
  · exact absurd ((h ⟨"class:a".toList⟩).2 ("move".toList, "100 100".toList)) (by decide +kernel)
  · exact absurd (h ⟨"k:B2|k:,1".toList⟩).1 (by decide +kernel)
  · exact absurd (h ⟨"class:a".toList⟩).1 (by decide +kernel)
  · exact absurd (h ⟨"class:a".toList⟩).1 (by decide +kernel)

end WindowRules
