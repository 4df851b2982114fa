import Phrasebook.MatchResult.Format
import Phrasebook.ModelSettings
import Phrasebook.Request
import Phrasebook.Settings.Layers
import Phrasebook.Proofs.Expansion
import Phrasebook.Proofs.NormalText
import Phrasebook.Proofs.Leaves
import Phrasebook.Proofs.Candidates
import Phrasebook.Proofs.Reachable
import Phrasebook.Proofs.MatchedBytes
import Phrasebook.Proofs.Runs
import Phrasebook.Proofs.LiteralMatching
import Phrasebook.Proofs.PlainText
import Phrasebook.Proofs.SelfMatching
import Phrasebook.Proofs.OwnPhrase
import Phrasebook.Proofs.SlotNames
import Phrasebook.Proofs.TemplateSteps
import Phrasebook.Proofs.TemplateItems
import Phrasebook.Proofs.TemplateGrammar
import Phrasebook.Proofs.WrittenForm
import Phrasebook.Proofs.WrittenMatching
import Phrasebook.Proofs.CapturedSpans
import Phrasebook.Proofs.Vocabulary
import Phrasebook.Proofs.Scanning
import Phrasebook.Proofs.TokenGroups
import Phrasebook.Proofs.WesternReading
import Phrasebook.Proofs.EnglishNumerals
import Phrasebook.Proofs.EnglishSpelling
import Phrasebook.Proofs.FrenchNumerals
import Phrasebook.Proofs.FrenchSpelling
import Phrasebook.Proofs.PositionalReading
import Phrasebook.Proofs.CharacterNumerals
import Phrasebook.Proofs.ChineseNumerals
import Phrasebook.Proofs.JapaneseWords
import Phrasebook.Proofs.KanjiNumerals
import Phrasebook.Proofs.JapaneseReadings
import Phrasebook.Proofs.SpanishNumerals
import Phrasebook.Proofs.SpanishSpelling
import Phrasebook.Proofs.Segmentation
import Phrasebook.Proofs.TokenSources
import Phrasebook.Proofs.Widening
import Phrasebook.Proofs.Overflow
import Phrasebook.Proofs.Registration
import Phrasebook.Proofs.RegistrationOrder
import Phrasebook.Proofs.Independence
import Phrasebook.Proofs.StrictLists
import Phrasebook.Proofs.WordSpans
import Phrasebook.Proofs.TrieSearch
import Phrasebook.Proofs.InputNormalForm
import Phrasebook.Proofs.SlotOrder
import Phrasebook.Proofs.SlotRuns
import Phrasebook.Proofs.SlotResolution
import Phrasebook.Proofs.WordStarts
import Phrasebook.Proofs.TrieEdits
import Phrasebook.Proofs.DefinitionBuilding
import Phrasebook.Proofs.WordRuns
import Phrasebook.Proofs.SlotWords
import Phrasebook.Proofs.SeparateTokens
import Phrasebook.Proofs.DigitItems
import Phrasebook.Proofs.DigitSequences
import Phrasebook.Proofs.DigitPlaces
import Phrasebook.Proofs.DigitMasks
import Phrasebook.Proofs.WesternSections
import Phrasebook.Proofs.ScaleRooms
import Phrasebook.Proofs.PositionalRooms
import Phrasebook.Proofs.RepeatedTens
import Phrasebook.Proofs.ScaledDigits
import Phrasebook.Proofs.LongestPhrases
import Phrasebook.Proofs.WholeWords
import Phrasebook.Proofs.CharacterScanning
import Phrasebook.Proofs.StackedScales
import Phrasebook.Proofs.ScaledNumerals
import Phrasebook.Proofs.TemplateMarks
import Phrasebook.Proofs.CanonicalMarks
import Phrasebook.Proofs.RestyledTemplates
import Phrasebook.Proofs.WrittenTemplates
import Phrasebook.Proofs.CanonicalTemplates
import Phrasebook.Proofs.NoBreakSpaces
import Phrasebook.Proofs.Ranking
import Phrasebook.Proofs.WordEnds
import Phrasebook.Proofs.ByteSteps
import Phrasebook.Proofs.SignScanning
import Phrasebook.Proofs.GrabbedWords
