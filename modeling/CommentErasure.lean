import CommentErasure.Text.Cut
import CommentErasure.Text.LineEnd
import CommentErasure.Text.Utf8
import CommentErasure.Text.Utf8.RoundTrip
import CommentErasure.Comment.Rule
import CommentErasure.Comment.Dissection
import CommentErasure.Comment.Dialect
import CommentErasure.Failure
import CommentErasure.FileTree.Basic
import CommentErasure.FileTree.Lookup
import CommentErasure.FileTree.Edit
import CommentErasure.Erasure
import CommentErasure.CommandLine
import CommentErasure.Main
import CommentErasure.Proofs.Text.Marker
import CommentErasure.Proofs.Comment.Occurrence
import CommentErasure.Proofs.Comment.Erasing
import CommentErasure.Proofs.Dialect.CodeResidue
import CommentErasure.Proofs.Comment.Stitch
import CommentErasure.Proofs.Dialect.MarkupResidue
import CommentErasure.Proofs.Dialect.CodeDocument
import CommentErasure.Proofs.Erasure.Outcome
import CommentErasure.Proofs.Comment.Resumption
import CommentErasure.Proofs.Dialect.Chunks
import CommentErasure.Proofs.Text.Encoding
import CommentErasure.Proofs.Text.LineEnd
import CommentErasure.Proofs.Erasure.Content
import CommentErasure.Proofs.Erasure.Stability
import CommentErasure.Proofs.CommandLine.Agreement
import CommentErasure.Proofs.Erasure.History
import CommentErasure.Proofs.Comment.Grammar
import CommentErasure.Proofs.Erasure.Independence
import CommentErasure.Proofs.Dialect.Lines
import CommentErasure.Proofs.Dialect.FixedPoints
import CommentErasure.Proofs.Erasure.Convergence
import CommentErasure.Proofs.Text.LineStyle
import CommentErasure.Proofs.Erasure.LineStyle
import CommentErasure.Proofs.Text.ReturnPairs
import CommentErasure.Proofs.Dialect.LineEnds
import CommentErasure.Proofs.Text.LossyReading
import CommentErasure.Proofs.Failure.Message
