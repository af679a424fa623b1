import Vintage.Main
import Vintage.Listing.Directive
import Vintage.Listing.Occurrence
import Vintage.Listing.Reference
import Vintage.Listing.Scope
import Vintage.Listing.Signature
import Vintage.Proofs.Widening
import Vintage.Proofs.Nesting
import Vintage.Proofs.Surroundings
import Vintage.Proofs.Layout.Findings
import Vintage.Proofs.VersionSyntax
import Vintage.Proofs.RangeSyntax
import Vintage.Proofs.Histories
import Vintage.Proofs.TableChecks
import Vintage.Proofs.Chronology
import Vintage.Proofs.TokenPlaces
import Vintage.Proofs.FindingPlaces
import Vintage.Proofs.Exemptions
import Vintage.Proofs.Spelling
import Vintage.Proofs.LetterCase
import Vintage.Proofs.CaseFolding
import Vintage.Proofs.RuleChoice
import Vintage.Proofs.ReportCounts
import Vintage.Proofs.MessageTexts
import Vintage.Proofs.Annotations
import Vintage.Proofs.RawLines
import Vintage.Proofs.Reach
import Vintage.Proofs.SettledKinds
import Vintage.Proofs.GlobalNames
import Vintage.Proofs.LinkedBrackets
import Vintage.Proofs.Lookups
import Vintage.Proofs.VerdictWording
import Vintage.Proofs.Descriptions
import Vintage.Proofs.KeywordNames
import Vintage.Proofs.ScopeOwners
import Vintage.Proofs.NameBraces
import Vintage.Proofs.ScopesInPlace
import Vintage.Proofs.Layout.Renumbering
import Vintage.Proofs.NestedBrackets
import Vintage.Proofs.ListItems
import Vintage.Proofs.Signatures.Compact
import Vintage.Proofs.Signatures.Parameters
import Vintage.Proofs.Signatures.Insertion
import Vintage.Proofs.Signatures.AttributeGroups
import Vintage.Proofs.Signatures.Attributes
import Vintage.Proofs.ConstantNames
import Vintage.Proofs.Signatures.TypeNames
import Vintage.Proofs.Layout.Removal
import Vintage.Proofs.Layout.ArgumentCounts
import Vintage.Proofs.Layout.DirectiveComments
import Vintage.Proofs.Signatures.ReturnColons
import Vintage.Proofs.DeclarationLists
import Vintage.Proofs.PathOrder
import Vintage.Proofs.FileTrees
import Vintage.Proofs.Signatures.TypeTexts
import Vintage.Proofs.InterfaceLists
import Vintage.Proofs.CollectedFiles
import Vintage.Proofs.NameSets
