import PxdStub.FileTree
import PxdStub.Main
import PxdStub.Program
import PxdStub.Proofs.Accounting
import PxdStub.Proofs.BalancedRegions
import PxdStub.Proofs.BatchOrder
import PxdStub.Proofs.BracketRegions
import PxdStub.Proofs.CommaGroups
import PxdStub.Proofs.CommentPass
import PxdStub.Proofs.CommentedIncludes
import PxdStub.Proofs.ErrorPlaces
import PxdStub.Proofs.ExternBlock
import PxdStub.Proofs.FunctionEndings
import PxdStub.Proofs.HeaderListing
import PxdStub.Proofs.ItemLog
import PxdStub.Proofs.LexicalErrors
import PxdStub.Proofs.LogicalLine
import PxdStub.Proofs.MergedIncludes
import PxdStub.Proofs.NamespaceBlock
import PxdStub.Proofs.OpaqueLiterals
import PxdStub.Proofs.OperatorNames
import PxdStub.Proofs.PublicSections
import PxdStub.Proofs.RenderedLines
import PxdStub.Proofs.Resumption
import PxdStub.Proofs.RunReports
import PxdStub.Proofs.Spans
import PxdStub.Proofs.SpelledDeclarations
import PxdStub.Proofs.StructDefinitions
import PxdStub.Proofs.StubHomes
import PxdStub.Proofs.TokenPlaces
import PxdStub.Proofs.TypeExpressions
